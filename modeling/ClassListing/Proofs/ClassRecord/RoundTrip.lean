import ClassListing.Proofs.Catalog.History
import ClassListing.Proofs.ClassRecord.Entries

/-!
# Class records survive their catalog form

A record is read from its JSON text as it was written, whatever its texts, modifiers and members are. So a
catalog loaded from the texts of records answers for each name with the last record of this name.
-/

namespace ClassListing

set_option autoImplicit false

namespace ClassRecord

/-- The catalog text of records: the list of their texts. -/
def listToJson (rs : List ClassRecord) : String := "[" ++ ",".intercalate (rs.map toJson) ++ "]"

theorem listToJson_eq (rs : List ClassRecord) :
    listToJson rs = String.ofList (writeList write rs) := by
  have hopen : "[".toList = ['['] := rfl
  have hclose : "]".toList = [']'] := rfl
  have hcomma : ",".toList = [','] := rfl
  have hrecords : rs.map (String.toList ∘ toJson) = rs.map write :=
    List.map_congr_left fun _ _ => String.toList_ofList
  apply String.toList_inj.mp
  rw [listToJson, String.toList_append, String.toList_append, String.toList_intercalate, List.map_map,
    hrecords, hopen, hclose, hcomma, String.toList_ofList]
  rfl

theorem listOfJson_listToJson (rs : List ClassRecord) :
    listOfJson (listToJson rs).toUTF8.data.toList = .ok rs := by
  rw [listToJson_eq, Json.toUTF8_ofList, listOfJson]
  exact Json.whole_of_reads
    (Json.sequence_reads fun r _ => ⟨r.read_write, Json.opens_writeObject _⟩)

/-- A record is read back from its text, and a catalog loaded from the texts of records has the last record
of each name. -/
theorem read_back_from_json :
    (∀ r : ClassRecord, ofJson r.toJson.toUTF8.data.toList = .ok r) ∧
      ∀ rs : List ClassRecord,
        let loaded := Catalog.empty.load (listToJson rs).toUTF8.data.toList
        loaded.1 = .ok rs.length ∧ ∀ name, loaded.2.resolve name = Catalog.lookup rs name := by
  constructor
  · intro r
    rw [toJson, Json.toUTF8_ofList, ofJson]
    exact Json.whole_of_reads r.read_write
  · intro rs loaded
    have hl : loaded = (.ok rs.length, Catalog.empty.insertAll rs) := by
      simp only [loaded, Catalog.load, listOfJson_listToJson]
    rw [hl]
    exact ⟨rfl, Catalog.resolve_insertAll rs⟩

end ClassRecord

end ClassListing
