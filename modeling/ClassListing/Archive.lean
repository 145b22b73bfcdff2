import ClassListing.Error
import ClassListing.Host
import ClassListing.Zip

/-!
Class archives: the names of the classes among the entries of a zip archive.
-/

namespace ClassListing

def classSuffix : String := ".class"

def dropSuffix? (suffix s : List Char) : Option (List Char) :=
  if suffix.isSuffixOf s then some (s.take (s.length - suffix.length)) else none

def dotted (path : List Char) : List Char := path.map fun c => if c = '/' then '.' else c

def classNameOf? (entry : String) : Option String :=
  (dropSuffix? classSuffix.toList entry.toList).map fun path => String.ofList (dotted path)

theorem dropSuffix?_eq_some {suffix s stem : List Char} :
    dropSuffix? suffix s = some stem ↔ s = stem ++ suffix := by
  unfold dropSuffix?
  constructor
  · intro h
    split at h
    · rename_i hs
      obtain ⟨front, rfl⟩ := List.isSuffixOf_iff_suffix.mp hs
      simpa [eq_comm] using h
    · cases h
  · rintro rfl
    simp

theorem classNameOf?_eq_some {p n : String} :
    classNameOf? p = some n ↔
      ∃ stem, p = String.ofList stem ++ classSuffix ∧ n = String.ofList (dotted stem) := by
  simp only [classNameOf?, Option.map_eq_some_iff, dropSuffix?_eq_some]
  constructor
  · rintro ⟨stem, hp, rfl⟩
    exact ⟨stem, String.toList_injective (by simp [hp]), rfl⟩
  · rintro ⟨stem, rfl, rfl⟩
    exact ⟨stem, by simp, rfl⟩

/-- Entries that end in a slash or backslash are directories. -/
def isDirectoryEntry (name : String) : Bool :=
  match name.toList.getLast? with
  | some c => c = '/' || c = '\\'
  | none => false

structure Archive where
  path : String
  data : ByteArray

namespace Archive

def ofBytes (path : String) (data : ByteArray) : Except Error Archive :=
  if data.size = 0 then .error (.archive path .empty) else .ok ⟨path, data⟩

def ofFile (path : String) (d : Disk) : Except Error Archive :=
  match d.mapFile path with
  | .error e => .error (.archive path (.disk e))
  | .ok data => ofBytes path data

def askName (keeps : Filter String) (name : String) (h : Host) : Bool × Host :=
  let (answer, asked) := keeps.consult name
  (answer, { h with asked := h.asked ++ asked })

/-- The class names among entries, counted from an index, that a filter accepts. An entry that
cannot be read is left out with a warning. -/
def namesOf (path : String) (keeps : Filter String) : Nat → List Zip.Entry → Host → List String × Host
  | _, [], h => ([], h)
  | index, e :: es, h =>
    if !e.readable then
      namesOf path keeps (index + 1) es
        (h.warn .archive s!"Skipping entry {index} of {path}: {ArchiveFault.unreadable.message}")
    else if isDirectoryEntry e.name then namesOf path keeps (index + 1) es h
    else
      match classNameOf? e.name with
      | none => namesOf path keeps (index + 1) es h
      | some name =>
        let (yes, h) := askName keeps name h
        let (names, h) := namesOf path keeps (index + 1) es h
        (if yes then name :: names else names, h)

def classNames (a : Archive) (keeps : Filter String) (h : Host) : Except Error (List String) × Host :=
  match Zip.read? a.data with
  | none => (.error (.archive a.path .unreadable), h)
  | some entries =>
    let (names, h) := namesOf a.path keeps 0 entries h
    (.ok names, h)

end Archive

end ClassListing
