import ClassListing.ClassPath
import ClassListing.Proofs.Text.Lines
import ClassListing.Proofs.Text.Pieces

/-!
# Paths in the environment and in files

A list of paths can be given as one text with colons between them or as the lines of a file. Both give
the list back, without the blank lines of the file.
-/

namespace ClassListing

set_option autoImplicit false

theorem Path.toList_intercalate_colon (paths : List String) :
    (":".intercalate paths).toList = Text.join ':' (paths.map String.toList) := by
  rw [String.toList_intercalate, Text.join_eq_intercalate]
  rfl

/-- A list of paths has the parts between its colons. -/
theorem Path.intercalate_splitList (paths : String) : ":".intercalate (splitList paths) = paths := by
  rw [← String.toList_inj, toList_intercalate_colon, splitList, Text.splitString, List.map_map]
  have hmap : (Text.split ':' paths.toList).map (String.toList ∘ String.ofList) = _ :=
    List.map_id'' (fun cs => String.toList_ofList) _
  rw [hmap, Text.join_split]

theorem Path.splitList_ne_nil (paths : String) : splitList paths ≠ [] := by
  simpa [splitList, Text.splitString] using Text.split_ne_nil ':' paths.toList

theorem Path.colon_of_mem_splitList {path paths : String} (h : path ∈ splitList paths) :
    ':' ∉ path.toList := by
  obtain ⟨cs, hcs, rfl⟩ := List.mem_map.mp h
  rw [String.toList_ofList]
  exact Text.not_mem_of_mem_split hcs

theorem Path.splitList_intercalate {paths : List String} (hne : paths ≠ [])
    (h : ∀ path ∈ paths, ':' ∉ path.toList) : splitList (":".intercalate paths) = paths := by
  have hpieces : ∀ cs ∈ paths.map String.toList, ':' ∉ cs := by
    intro cs hcs
    obtain ⟨path, hp, rfl⟩ := List.mem_map.mp hcs
    exact h path hp
  rw [splitList, Text.splitString, toList_intercalate_colon, Text.split_join (by simpa using hne) hpieces, List.map_map]
  exact List.map_id'' (fun path => String.ofList_toList) paths

namespace ClassPath

theorem bootPaths_of_intercalate {h : Host} {paths : List String}
    (hv : h.var? bootVariable = some (":".intercalate paths))
    (hp : ∀ path ∈ paths, path ≠ "" ∧ ':' ∉ path.toList) : bootPaths h = paths := by
  unfold bootPaths
  rw [hv]
  by_cases hne : paths = []
  · subst hne
    rfl
  · have hcolon : ∀ path ∈ paths, ':' ∉ path.toList := fun path hm => (hp path hm).2
    have hfull : ∀ path ∈ paths, decide (path ≠ "") = true := fun path hm => decide_eq_true (hp path hm).1
    simp only [Path.splitList_intercalate hne hcolon]
    exact List.filter_eq_self.mpr hfull

/-- Blank lines may stand anywhere in the file, and the last line needs no line end. -/
theorem ofFile_of_written {file : String} {d : Disk} {ls : List (String × Text.LineEnd)} {rest : String}
    (filter : Filter String) (ht : d.readText file = .ok (Text.written ls rest))
    (hl : ∀ l ∈ ls, Text.IsLine l.1) (hr : '\n' ∉ rest.toList) :
    ofFile file filter d = .ok ⟨(ls.map Prod.fst ++ [rest]).filter (· ≠ ""), filter⟩ := by
  simp only [ofFile, readLines, ht, Text.lines_written hl hr, List.filter_append]
  by_cases he : rest = ""
  · simp [he]
  · simp [he]

end ClassPath

end ClassListing
