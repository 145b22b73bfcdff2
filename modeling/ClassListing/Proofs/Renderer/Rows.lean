import ClassListing.Proofs.Renderer.Details
import ClassListing.Proofs.Text.Csv
import Mathlib.Algebra.BigOperators.Group.List.Basic

/-!
# Simple CSV rows

The columns of a row are written between quotes as they are. A reader of quoted fields gives the columns back
exactly when no quote stands in them; all other characters do no harm.
-/

namespace ClassListing

set_option autoImplicit false

/-- The columns of the row of a member. -/
def Member.columns (m : Member) : List String := [m.declaring.name, m.signature]

/-- How often a quote stands in the columns. -/
def Member.quotes (m : Member) : Nat :=
  m.declaring.name.toList.count '"' + m.signature.toList.count '"'

theorem Member.quotes_eq_zero_iff {m : Member} :
    m.quotes = 0 ↔ '"' ∉ m.declaring.name.toList ∧ '"' ∉ m.signature.toList := by
  rw [quotes, Nat.add_eq_zero_iff, List.count_eq_zero, List.count_eq_zero]

namespace Renderer

theorem toList_csvRow (m : Member) :
    (csvRow m).toList = '"' :: (m.declaring.name.toList ++ '"' :: ',' :: '"' ::
      (m.signature.toList ++ ['"', '\n'])) := by
  simp [csvRow, quote, lineEnd]

theorem row_columns (m : Member) :
    Csv.row m.columns = '"' :: (Csv.doubled m.declaring.name.toList ++ '"' :: ',' :: '"' ::
      (Csv.doubled m.signature.toList ++ ['"', '\n'])) := by
  simp [Member.columns, Csv.row, Csv.rowEnd, Csv.quoted]

/-- A row lacks one quote for each that stands in a column. -/
theorem length_row_columns (m : Member) :
    (Csv.row m.columns).length = (csvRow m).toList.length + m.quotes := by
  rw [toList_csvRow, row_columns, Member.quotes]
  simp only [List.length_cons, List.length_append, Csv.length_doubled, List.length_nil]
  omega

theorem row_columns_of_no_quote {m : Member} (h : m.quotes = 0) :
    Csv.row m.columns = (csvRow m).toList := by
  obtain ⟨hname, hsignature⟩ := Member.quotes_eq_zero_iff.mp h
  rw [toList_csvRow, row_columns, Csv.doubled_of_not_mem hname, Csv.doubled_of_not_mem hsignature]

theorem rows_eq_written_iff (ms : List Member) :
    (ms.flatMap fun m => (csvRow m).toList) = Csv.written (ms.map Member.columns) ↔
      ∀ m ∈ ms, m.quotes = 0 := by
  rw [Csv.written, List.flatMap_map]
  constructor
  · intro heq
    have hlength : (ms.map Member.quotes).sum = 0 := by
      have h := congrArg List.length heq
      simp only [List.length_flatMap, length_row_columns, List.sum_map_add] at h
      omega
    intro m hm
    exact List.sum_eq_zero_iff_forall_eq_nat.mp hlength _ (List.mem_map_of_mem hm)
  · intro h
    rw [List.flatMap_def, List.flatMap_def]
    exact congrArg List.flatten (List.map_congr_left fun m hm => (row_columns_of_no_quote (h m hm)).symm)

theorem shows_csv (caller : Option (Filter Member)) (c : JavaClass) :
    (csv caller).Shows c csvRow (listedMembers caller c) :=
  shows_accepted rfl rfl (filter_activeFilter caller c) fun _ _ => rfl

theorem exists_render_csv (caller : Option (Filter Member)) (c : JavaClass) :
    ∃ t, (csv caller).render c = .ok t ∧
      (t.getD "").toList = (listedMembers caller c).flatMap fun m => (csvRow m).toList :=
  (shows_csv caller c).exists_toList

/-- The text of any class, whatever the filter, is read as one record of two fields for each member that the
filter accepts, in order, if and only if no quote stands in the name of the class or in a signature. -/
theorem csv_rows_read_back_iff (caller : Option (Filter Member)) (c : JavaClass) :
    ∃ t, (csv caller).render c = .ok t ∧
      (Csv.records? (t.getD "") =
          some ((listedMembers caller c).map fun m => [m.declaring.name, m.signature]) ↔
        ∀ m ∈ listedMembers caller c,
          '"' ∉ m.declaring.name.toList ∧ '"' ∉ m.signature.toList) := by
  obtain ⟨t, hrender, htext⟩ := exists_render_csv caller c
  refine ⟨t, hrender, ?_⟩
  have hne : [] ∉ (listedMembers caller c).map Member.columns := by
    simp [Member.columns]
  have hread : Csv.records? (t.getD "") = some ((listedMembers caller c).map Member.columns) ↔
      ∀ m ∈ listedMembers caller c, m.quotes = 0 := by
    rw [Csv.records?_eq_some_iff, htext, rows_eq_written_iff]
    exact and_iff_right hne
  simp only [Member.quotes_eq_zero_iff] at hread
  exact hread

/-- A name with quotes around a comma makes a third field. -/
theorem csv_row_with_quotes_has_three_fields :
    let info : ClassInfo := ⟨"p.A", .empty⟩
    let c : JavaClass := ⟨info, [⟨info, .field, .empty, "int", "x\",\"y", [], false, false, false⟩], []⟩
    ∃ t, (csv none).render c = .ok (some t) ∧
      Csv.records? t = some [["p.A", "int x", "y"]] ∧
      Csv.records? t ≠ some (c.members.map fun m => [m.declaring.name, m.signature]) := by
  refine ⟨"\"p.A\",\"int x\",\"y\"\n", ?_, ?_, ?_⟩
  · decide +kernel
  · decide +kernel
  · decide +kernel

end Renderer

end ClassListing
