import ClassListing.Text.Split

/-!
# Taking written texts apart

A text is cut again at the separators that were put after or between its pieces. That gives the pieces
back if no piece holds the separator at which it ends.
-/

namespace ClassListing.Text

set_option autoImplicit false

variable {α β : Type}

/-! ## Different separators -/

/-- The pieces that end at the given separators, each at the first place, and what is left. -/
def cutAt : List Char → List Char → Option (List (List Char))
  | [], cs => some [cs]
  | sep :: seps, cs =>
    match cs.dropWhile (· ≠ sep) with
    | [] => none
    | _ :: rest => (cutAt seps rest).map (cs.takeWhile (· ≠ sep) :: ·)

theorem cutAt_append {sep : Char} {p : List Char} (h : sep ∉ p) (seps cs : List Char) :
    cutAt (sep :: seps) (p ++ sep :: cs) = (cutAt seps cs).map (p :: ·) := by
  have hp : ∀ c ∈ p, decide (c ≠ sep) = true := by
    intro c hc
    have hne : c ≠ sep := fun he => h (he ▸ hc)
    exact decide_eq_true hne
  have hs : decide (sep ≠ sep) = false := by simp
  rw [cutAt, List.dropWhile_append_of_pos hp, List.takeWhile_append_of_pos hp,
    List.dropWhile_cons, List.takeWhile_cons, hs]
  simp

theorem cutAt_self (sep : Char) (seps cs : List Char) :
    cutAt (sep :: seps) (sep :: cs) = (cutAt seps cs).map ([] :: ·) :=
  cutAt_append (p := []) List.not_mem_nil seps cs

/-! ## One separator -/

theorem not_mem_of_mem_split {sep : Char} {p cs : List Char} (h : p ∈ split sep cs) : sep ∉ p := by
  induction cs generalizing p with
  | nil => simp_all
  | cons c cs ih =>
    by_cases hc : c = sep
    · rw [hc, split_sep] at h
      rcases List.mem_cons.mp h with rfl | h
      · exact List.not_mem_nil
      · exact ih h
    · obtain ⟨q, qs, hq, hsplit⟩ := split_cons hc cs
      rw [hq] at ih
      rw [hsplit] at h
      rcases List.mem_cons.mp h with rfl | h
      · simpa [Ne.symm hc] using ih List.mem_cons_self
      · exact ih (List.mem_cons_of_mem q h)

theorem join_eq_intercalate (sep : Char) (ps : List (List Char)) :
    join sep ps = [sep].intercalate ps := by
  induction ps with
  | nil => rfl
  | cons p ps ih =>
    cases ps with
    | nil => simp [join]
    | cons q qs =>
      rw [join, ih, List.intercalate_cons_cons]
      simp

theorem not_mem_intercalate {sep c : Char} (hc : c ≠ sep) {ps : List (List Char)}
    (h : ∀ p ∈ ps, c ∉ p) : c ∉ [sep].intercalate ps := by
  induction ps with
  | nil => exact List.not_mem_nil
  | cons p ps ih =>
    have hp : c ∉ p := h p List.mem_cons_self
    have hrest := ih fun q hq => h q (List.mem_cons_of_mem p hq)
    cases ps with
    | nil => simpa using hp
    | cons q qs =>
      rw [List.intercalate_cons_cons]
      simp only [List.mem_append, List.mem_singleton, not_or]
      exact ⟨⟨hp, hc⟩, hrest⟩

/-- Texts with a separator between them, none of them empty: an empty text holds none. -/
def items (sep : Char) (cs : List Char) : List (List Char) :=
  if cs = [] then [] else split sep cs

theorem items_intercalate {sep : Char} {ps : List (List Char)}
    (h : ∀ p ∈ ps, p ≠ [] ∧ sep ∉ p) : items sep ([sep].intercalate ps) = ps := by
  cases ps with
  | nil => rfl
  | cons p ps =>
    have hne : [sep].intercalate (p :: ps) ≠ [] := by
      intro hnil
      have hp : p ≠ [] := (h p List.mem_cons_self).1
      cases ps with
      | nil => exact hp (by simpa using hnil)
      | cons q qs =>
        rw [List.intercalate_cons_cons] at hnil
        simp [hp] at hnil
    rw [items, if_neg hne, ← join_eq_intercalate]
    exact split_join (List.cons_ne_nil _ _) fun q hq => (h q hq).2

/-! ## Lines -/

/-- The lines of a text that ends each of its lines. -/
def rows (cs : List Char) : List (List Char) := (split '\n' cs).dropLast

theorem rows_flatMap {line : α → List Char} {xs : List α} (h : ∀ x ∈ xs, '\n' ∉ line x) :
    rows (xs.flatMap fun x => line x ++ ['\n']) = xs.map line := by
  induction xs with
  | nil => rfl
  | cons x xs ih =>
    have hx : '\n' ∉ line x := h x List.mem_cons_self
    have hrest := ih fun y hy => h y (List.mem_cons_of_mem x hy)
    rw [List.flatMap_cons, List.append_assoc, List.singleton_append, rows, split_append hx,
      List.dropLast_cons_of_ne_nil (split_ne_nil _ _), List.map_cons, ← hrest]
    rfl

/-- What is written line by line is read line by line. -/
theorem mapM_rows_flatMap {line : α → List Char} {read : List Char → Option β} {f : α → β}
    {xs : List α} (hend : ∀ x ∈ xs, '\n' ∉ line x) (hread : ∀ x ∈ xs, read (line x) = some (f x)) :
    (rows (xs.flatMap fun x => line x ++ ['\n'])).mapM read = some (xs.map f) := by
  rw [rows_flatMap hend]
  clear hend
  induction xs with
  | nil => rfl
  | cons x xs ih =>
    have hx := hread x List.mem_cons_self
    have hrest := ih fun y hy => hread y (List.mem_cons_of_mem x hy)
    rw [List.map_cons, List.mapM_cons, hx, hrest]
    rfl

end ClassListing.Text
