import ClassListing.Disk.Error
import ClassListing.Path
import ClassListing.Text.Utf8

/-!
A file system: files and directories under one root, and the directory that relative paths start from.
A path is resolved name by name, and every name on the way must be a directory.
-/

namespace ClassListing

abbrev Location := List String

inductive DiskNode where
  | directory
  | file (content : ByteArray)

instance : DecidableEq DiskNode
  | .directory, .directory => isTrue rfl
  | .directory, .file _ => isFalse nofun
  | .file _, .directory => isFalse nofun
  | .file a, .file b =>
    match ByteArray.instDecidableEq a b with
    | isTrue h => isTrue (congrArg DiskNode.file h)
    | isFalse h => isFalse fun e => h (DiskNode.file.inj e)

structure Disk where
  /-- What stands where, without the root. -/
  nodes : List (Location × DiskNode)
  workingDirectory : Location

namespace Disk

def empty (workingDirectory : Location) : Disk := ⟨[], workingDirectory⟩

def node? (d : Disk) (loc : Location) : Option DiskNode :=
  if loc = [] then some .directory else d.nodes.lookup loc

def putNode (loc : Location) (n : DiskNode) : List (Location × DiskNode) → List (Location × DiskNode)
  | [] => [(loc, n)]
  | (l, m) :: rest => if l = loc then (l, n) :: rest else (l, m) :: putNode loc n rest

def put (d : Disk) (loc : Location) (n : DiskNode) : Disk :=
  { d with nodes := putNode loc n d.nodes }

theorem lookup_putNode (loc l : Location) (n : DiskNode) (nodes : List (Location × DiskNode)) :
    (putNode loc n nodes).lookup l = if l = loc then some n else nodes.lookup l := by
  induction nodes with
  | nil =>
    by_cases h : l = loc
    · simp [putNode, h]
    · have hb : (l == loc) = false := by simpa using h
      simp [putNode, List.lookup_cons, h, hb]
  | cons p rest ih =>
    obtain ⟨k, m⟩ := p
    by_cases hk : k = loc
    · subst hk
      by_cases h : l = k
      · simp [putNode, h]
      · have hb : (l == k) = false := by simpa using h
        simp [putNode, List.lookup_cons, h, hb]
    · by_cases h : l = k
      · subst h
        simp [putNode, hk]
      · have hb : (l == k) = false := by simpa using h
        simp [putNode, hk, List.lookup_cons, hb, ih]

/-- A write changes its own location and no other. -/
theorem node?_put {d : Disk} {loc : Location} (h : loc ≠ []) (n : DiskNode) (l : Location) :
    (d.put loc n).node? l = if l = loc then some n else d.node? l := by
  by_cases hl : l = []
  · subst hl
    simp [node?, Ne.symm h]
  · simp [node?, put, hl, lookup_putNode]

def remove (d : Disk) (loc : Location) : Disk :=
  { d with nodes := d.nodes.filter fun p => p.1 ≠ loc }

def makeDirectories (d : Disk) (loc : Location) : Disk :=
  (List.range loc.length).foldl (fun d n =>
    let l := loc.take (n + 1)
    if (d.node? l).isSome then d else d.put l .directory) d

def place (d : Disk) (loc : Location) (content : ByteArray) : Disk :=
  (d.makeDirectories loc.dropLast).put loc (.file content)

/-! ## Resolving paths -/

def longestName : Nat := 255

def pathLimit : Nat := 4096

def step (d : Disk) (loc : Location) (name : String) : Except DiskError Location :=
  match d.node? loc with
  | some .directory =>
    if name = "" || name = "." then .ok loc
    else if name = ".." then .ok loc.dropLast
    else if longestName < name.utf8ByteSize then .error .nameTooLong
    else if (d.node? (loc ++ [name])).isSome then .ok (loc ++ [name])
    else .error .notFound
  | some (.file _) => .error .notDirectory
  | none => .error .notFound

def walk (d : Disk) : Location → List String → Except DiskError Location
  | loc, [] => .ok loc
  | loc, name :: names =>
    match d.step loc name with
    | .ok loc => walk d loc names
    | .error e => .error e

def checkPath (path : String) : Except DiskError Unit :=
  if path.toList.contains '\x00' then .error .nulInPath
  else if path = "" then .error .notFound
  else if pathLimit ≤ path.utf8ByteSize then .error .nameTooLong
  else .ok ()

def origin (d : Disk) (path : String) : Location :=
  if Path.isAbsolute path then [] else d.workingDirectory

def locate (d : Disk) (path : String) : Except DiskError Location :=
  match checkPath path with
  | .error e => .error e
  | .ok () => d.walk (d.origin path) (Path.parts path)

def find (d : Disk) (path : String) : Except DiskError DiskNode :=
  match d.locate path with
  | .error e => .error e
  | .ok l =>
    match d.node? l with
    | some n => .ok n
    | none => .error .notFound

/-- A path that cannot be resolved, for whatever reason, does not exist. -/
def pathExists (d : Disk) (path : String) : Bool := (d.find path).isOk

def isDirectory (d : Disk) (path : String) : Bool :=
  match d.find path with
  | .ok .directory => true
  | _ => false

def isFile (d : Disk) (path : String) : Bool :=
  match d.find path with
  | .ok (.file _) => true
  | _ => false

/-! ## Reading -/

/-- The content of a file. A directory can be opened; what is then done with it fails in its own way. -/
def readWith (onDirectory : DiskError) (d : Disk) (path : String) : Except DiskError ByteArray :=
  match d.find path with
  | .error e => .error e
  | .ok .directory => .error onDirectory
  | .ok (.file content) => .ok content

def read (d : Disk) (path : String) : Except DiskError ByteArray := readWith .isDirectory d path

def mapFile (d : Disk) (path : String) : Except DiskError ByteArray := readWith .noDevice d path

def readText (d : Disk) (path : String) : Except DiskError String :=
  match d.read path with
  | .error e => .error e
  | .ok content =>
    match String.fromUTF8? content with
    | some text => .ok text
    | none => .error .notUtf8

theorem readText_eq_ok_iff {d : Disk} {path text : String} :
    d.readText path = .ok text ↔ d.read path = .ok text.toUTF8 := by
  unfold readText
  cases d.read path with
  | error e => simp
  | ok content =>
    rw [Except.ok.injEq, ← Utf8.fromUTF8?_eq_some]
    cases h : String.fromUTF8? content <;> simp [h]

/-- The names right below a place, each once. -/
def namesIn (d : Disk) (place : Location) : List String :=
  (d.nodes.filterMap fun (l, _) =>
    match l.getLast? with
    | some name => if l.dropLast = place then some name else none
    | none => none).eraseDups

/-! ## Writing -/

def splitLast (names : List String) : List String × Option String × Bool :=
  let reversed := names.reverse
  match reversed.dropWhile (· = "") with
  | [] => ([], none, true)
  | name :: before => (before.reverse, some name, reversed.head? = some "")

/-- Where a file is made or emptied. A directory cannot be, nor a name that a slash follows. -/
def target (d : Disk) (path : String) : Except DiskError Location :=
  match checkPath path with
  | .error e => .error e
  | .ok () =>
    match splitLast (Path.parts path) with
    | (_, none, _) => .error .isDirectory
    | (before, some name, slash) =>
      match d.walk (d.origin path) before with
      | .error e => .error e
      | .ok dir =>
        match d.node? dir with
        | some .directory =>
          if slash || name = "." || name = ".." then .error .isDirectory
          else if longestName < name.utf8ByteSize then .error .nameTooLong
          else if d.node? (dir ++ [name]) = some .directory then .error .isDirectory
          else .ok (dir ++ [name])
        | some (.file _) => .error .notDirectory
        | none => .error .notFound

def create (d : Disk) (path : String) : Except DiskError (Location × Disk) :=
  (d.target path).map fun l => (l, d.put l (.file ByteArray.empty))

def append (d : Disk) (loc : Location) (text : String) : Disk :=
  match d.node? loc with
  | some (.file content) => d.put loc (.file (content ++ text.toUTF8))
  | _ => d

end Disk

end ClassListing
