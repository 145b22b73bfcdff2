import ClassListing.CommandLine.Listing

/-!
The program. What an invocation can look at is read into a disk, the command runs on that disk, and the
files it wrote are written back. Nothing is decided here.
-/

namespace ClassListing

/-! ## What an invocation looks at -/

/-- Where a path leads if there are no links on the way. -/
def Disk.destination (d : Disk) (path : String) : Location :=
  (Path.parts path).foldl (fun loc name =>
    if name = "" || name = "." then loc
    else if name = ".." then loc.dropLast
    else loc ++ [name]) (d.origin path)

namespace Invocation

def inputs (i : Invocation) : List String :=
  i.catalogs ++ match i.selection with
    | .nameFile path => [path]
    | .classPathFile path _ => [path]
    | _ => []

def searched (i : Invocation) (h : Host) : List String :=
  match i.selection, h.var? ClassPath.bootVariable, h.var? ClassPath.homeVariable with
  | .boot, none, some home => ClassPath.libraryDirectories home
  | _, _, _ => []

/-- The archives on the class path and the file to be written, once the inputs are there. -/
def others (i : Invocation) (h : Host) : List String :=
  match (i.source h).1 with
  | .error _ => []
  | .ok (source, paths) =>
    paths ++ match i.destination with
      | .terminal => []
      | .file directory _ => [Path.join directory (fileName source i.renderer)]

end Invocation

/-! ## Reading and writing -/

def rooted (l : Location) : String := "/" ++ "/".intercalate l

def load (d : Disk) (path : String) : IO Disk := do
  let root ← IO.currentDir
  let loc := d.destination path
  let mut d := d
  for n in List.range loc.length do
    let l := loc.take (n + 1)
    let real := root / rooted l
    if ← real.isDir then
      d := d.makeDirectories l
    else if ← real.pathExists then
      d := d.put l (.file (← IO.FS.readBinFile real))
  return d

def loadDirectory (d : Disk) (path : String) : IO Disk := do
  let root ← IO.currentDir
  let mut d ← load d path
  let real := root / rooted (d.destination path)
  if ← real.isDir then
    for e in ← real.readDir do
      if Path.extension? e.fileName = some "jar" then
        d ← load d (Path.join path e.fileName)
  return d

def environment : IO (List (String × String)) := do
  let mut env := []
  for name in [ClassPath.bootVariable, ClassPath.homeVariable, ClassPath.pathVariable,
      Outcome.settingVariable] do
    if let some value ← IO.getEnv name then
      env := (name, value) :: env
  return env

def hostOf (i : Invocation) : IO Host := do
  let here := (← IO.currentDir).toString
  let start := Disk.empty ((Path.parts here).filter (· ≠ ""))
  let h := Host.ofDisk (start.makeDirectories start.workingDirectory) (← environment)
  let disk ← i.inputs.foldlM load h.disk
  let disk ← (i.searched h).foldlM loadDirectory disk
  let h := { h with disk }
  let disk ← (i.others h).foldlM load disk
  return { h with disk }

def store (before after : Disk) : IO Unit := do
  for (l, n) in after.nodes do
    match n with
    | .directory => pure ()
    | .file content =>
      if before.node? l ≠ some n then
        IO.FS.writeBinFile (rooted l) content

def execute (args : List String) : IO UInt32 := do
  let h ← match Request.ofArguments args with
    | .ok (.listing i) => hostOf i
    | _ => pure (.ofDisk (.empty []) [])
  let o := Outcome.ofArguments args h
  store h.disk o.disk
  IO.eprint o.stderr
  IO.print o.stdout
  return o.code.toUInt32

end ClassListing

def main (args : List String) : IO UInt32 := ClassListing.execute args
