import ClassListing.Archive
import ClassListing.Cursor.Editable
import ClassListing.Cursor.Sequential
import ClassListing.Text.Lines

/-!
Class paths: lists of archives. An entry of a class path that cannot be used contributes no names.
-/

namespace ClassListing

def readLines (path : String) (d : Disk) : Except Error (List String) :=
  match d.readText path with
  | .ok text => .ok (Text.lines text)
  | .error e => .error (.source path e)

structure ClassPath where
  paths : List String
  filter : Filter String

namespace ClassPath

/-! ## Where class paths come from -/

def bootVariable : String := "JLSCOPE_BOOT_CLASSPATH"

def homeVariable : String := "JAVA_HOME"

def pathVariable : String := "CLASSPATH"

def insertSorted (path : String) : List String → List String
  | [] => [path]
  | p :: ps => if p < path then p :: insertSorted path ps else path :: p :: ps

def sorted (paths : List String) : List String := paths.foldr insertSorted []

/-- A directory that cannot be read contributes no archives. -/
def archivesIn (dir : String) (h : Host) : List String :=
  match h.list? dir with
  | none => []
  | some names =>
    (sorted (names.filter fun name =>
      Path.extension? name = some "jar" && h.disk.isFile (Path.join dir name))).map (Path.join dir)

def libraryDirectories (home : String) : List String :=
  [Path.join (Path.join home "jre") "lib", Path.join home "lib"]

/-- The boot class path: what the environment gives, else the archives of the Java installation. -/
def bootPaths (h : Host) : List String :=
  match h.var? bootVariable with
  | some paths => (Path.splitList paths).filter (· ≠ "")
  | none =>
    match h.var? homeVariable with
    | some home => (libraryDirectories home).flatMap fun dir => archivesIn dir h
    | none => []

def boot (filter : Filter String) (h : Host) : ClassPath × Host :=
  let paths := bootPaths h
  let h :=
    if paths = [] then
      h.warn .classPath s!"No boot class path found, set {bootVariable} or {homeVariable}"
    else h
  (⟨paths, filter⟩, h)

def ofEnvironment (filter : Filter String) (h : Host) : ClassPath :=
  ⟨((h.var? pathVariable).map Path.splitList).getD [], filter⟩

def ofFile (path : String) (filter : Filter String) (d : Disk) : Except Error ClassPath :=
  match readLines path d with
  | .ok lines => .ok ⟨lines.filter (· ≠ ""), filter⟩
  | .error e => .error e

def tag (c : ClassPath) : String := "CP-" ++ c.filter.name

/-! ## The names on a class path -/

def listArchive (keeps : Filter String) (path : String) (h : Host) :
    Except Error (List String) × Host :=
  match Archive.ofFile path h.disk with
  | .error e => (.error e, h)
  | .ok archive => archive.classNames keeps h

def scan (keeps : Filter String) (path : String) (h : Host) : List String × Host :=
  if !h.disk.pathExists path then
    ([], h.debug .classPath s!"Skipping missing class path entry {path}")
  else if h.disk.isDirectory path then
    ([], h.warn .classPath
      s!"Skipping directory {path}, directories on the class path are not traversed")
  else
    match listArchive keeps path h with
    | (.ok names, h) => (names, h.debug .classPath s!"Found {names.length} classes in {path}")
    | (.error e, h) => ([], h.warn .classPath s!"Skipping {e.message}")

/-- Entries are scanned when their names are asked for. -/
def supply (keeps : Filter String) : Supply Host String (Editable String) where
  build path h :=
    let (names, h) := scan keeps path h
    (.ofList names, h)
  ended h := h
  bound _ := 0

def scanned : Cursor Host (Editable String) String where
  next c h := (c.next.1, c.next.2, h)
  hasNext c h := (c.hasNext, c, h)
  remove c h := (c.remove.1, c.remove.2, h)
  bound c := c.items.length - c.position

abbrev Pass := Sequential String (Editable String)

def start (c : ClassPath) (h : Host) : Pass × Host :=
  Sequential.start (supply c.filter) c.paths h

def next (keeps : Filter String) (p : Pass) (h : Host) : Option String × Pass × Host :=
  Sequential.next scanned (supply keeps) p h

/-! ## Every pass ends -/

def namesLeft (c : Editable String) : Nat := c.items.length - c.position

theorem next_smaller {keeps : Filter String} {p q : Pass} {h k : Host} {x : String}
    (hn : next keeps p h = (some x, q, k)) :
    Prod.Lex (· < ·) (· < ·) (q.supplyLeft namesLeft) (p.supplyLeft namesLeft) := by
  refine Sequential.next_supplyLeft (fun c w => Nat.le_refl _) ?_ hn
  intro c w x hx
  by_cases hc : c.position < c.items.length
  · simp only [scanned, Editable.next_of_lt hc, namesLeft]
    omega
  · simp [scanned, Editable.next_of_le (Nat.le_of_not_lt hc)] at hx

end ClassPath

end ClassListing
