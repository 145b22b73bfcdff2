import Std.Data.HashMap
import ClassListing.ClassRecord.Json
import ClassListing.Resolver

/-!
Catalogs: class records by name. The record added last counts. A catalog text is added as a whole or not at
all, and a record is checked only when its class is looked up, so a bad one fails its own class.
-/

namespace ClassListing

structure Catalog where
  records : Std.HashMap String ClassRecord

namespace Catalog

def empty : Catalog := ⟨∅⟩

def insert (c : Catalog) (r : ClassRecord) : Catalog := ⟨c.records.insert r.name r⟩

def insertAll (c : Catalog) (rs : List ClassRecord) : Catalog := rs.foldl insert c

def size (c : Catalog) : Nat := c.records.size

def isEmpty (c : Catalog) : Bool := c.records.isEmpty

def load (c : Catalog) (text : List UInt8) : Except Error Nat × Catalog :=
  match ClassRecord.listOfJson text with
  | .error e => (.error (.catalog e), c)
  | .ok rs => (.ok rs.length, c.insertAll rs)

def loadFile (c : Catalog) (path : String) (h : Host) : Except Error Nat × Catalog × Host :=
  match h.disk.read path with
  | .error e => (.error (.source path e), c, h)
  | .ok content =>
    match c.load content.data.toList with
    | (.error e, c) => (.error e, c, h)
    | (.ok n, c) => (.ok n, c, h.debug .catalog s!"Loaded {n} classes from catalog {path}")

def loadFiles (c : Catalog) : List String → Host → Except Error Catalog × Host
  | [], h => (.ok c, h)
  | path :: paths, h =>
    match c.loadFile path h with
    | (.error e, _, h) => (.error e, h)
    | (.ok _, c, h) => loadFiles c paths h

def ofFiles (paths : List String) (h : Host) : Except Error Catalog × Host :=
  empty.loadFiles paths h

def resolve (c : Catalog) (name : String) : Except Error JavaClass :=
  match c.records[name]? with
  | none => .error (.classNotFound name)
  | some r =>
    match r.toClass with
    | .ok c => .ok c
    | .error m => .error (.malformed m)

/-- Classes are looked up in the catalog whatever the class path is. -/
def resolver : Resolver Catalog where
  resolve name c := (c.resolve name, c)
  setClassPath _ c := c

theorem getElem?_insert (c : Catalog) (r : ClassRecord) (name : String) :
    (c.insert r).records[name]? = if r.name = name then some r else c.records[name]? := by
  simp [insert, Std.HashMap.getElem?_insert]

end Catalog

end ClassListing
