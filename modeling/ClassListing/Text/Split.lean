/-!
Cutting text at a separator and joining pieces again. Nothing is lost: the pieces joined by the
separator are the text (`join_split`), and pieces without the separator come back (`split_join`).
-/

namespace ClassListing.Text

/-- The pieces between the separators. There is always at least one, possibly empty. -/
def split (sep : Char) (cs : List Char) : List (List Char) :=
  cs.foldr (fun c pieces =>
    if c = sep then [] :: pieces
    else match pieces with
      | [] => [[c]]
      | p :: ps => (c :: p) :: ps) [[]]

def join (sep : Char) : List (List Char) → List Char
  | [] => []
  | [p] => p
  | p :: q :: ps => p ++ sep :: join sep (q :: ps)

@[simp] theorem split_nil (sep : Char) : split sep [] = [[]] := rfl

theorem split_sep (sep : Char) (cs : List Char) : split sep (sep :: cs) = [] :: split sep cs := by
  simp [split]

theorem split_ne_nil (sep : Char) (cs : List Char) : split sep cs ≠ [] := by
  cases cs with
  | nil => simp
  | cons c cs =>
    simp only [split, List.foldr_cons]
    split
    · simp
    · split <;> simp

theorem split_cons {sep c : Char} (h : c ≠ sep) (cs : List Char) :
    ∃ p ps, split sep cs = p :: ps ∧ split sep (c :: cs) = (c :: p) :: ps := by
  obtain ⟨p, ps, hp⟩ := List.exists_cons_of_ne_nil (split_ne_nil sep cs)
  refine ⟨p, ps, hp, ?_⟩
  have : split sep (c :: cs) = match split sep cs with
      | [] => [[c]]
      | p :: ps => (c :: p) :: ps := by
    simp [split, h]
  rw [this, hp]

theorem join_split (sep : Char) (cs : List Char) : join sep (split sep cs) = cs := by
  induction cs with
  | nil => rfl
  | cons c cs ih =>
    by_cases h : c = sep
    · subst h
      obtain ⟨p, ps, hp⟩ := List.exists_cons_of_ne_nil (split_ne_nil c cs)
      rw [split_sep, hp, join, ← hp, ih]
      rfl
    · obtain ⟨p, ps, hp, hc⟩ := split_cons h cs
      rw [hp] at ih
      rw [hc]
      cases ps with
      | nil => simpa [join] using ih
      | cons q qs => simpa [join] using ih

theorem split_of_not_mem {sep : Char} {cs : List Char} (h : sep ∉ cs) : split sep cs = [cs] := by
  induction cs with
  | nil => rfl
  | cons c cs ih =>
    simp only [List.mem_cons, not_or] at h
    obtain ⟨p, ps, hp, hc⟩ := @split_cons sep c (Ne.symm h.1) cs
    rw [ih h.2] at hp
    simp only [List.cons.injEq] at hp
    rw [hc, ← hp.1, ← hp.2]

/-- A piece that does not hold the separator is cut off whole. -/
theorem split_append {sep : Char} {p : List Char} (h : sep ∉ p) (cs : List Char) :
    split sep (p ++ sep :: cs) = p :: split sep cs := by
  induction p with
  | nil => exact split_sep sep cs
  | cons c p ih =>
    simp only [List.mem_cons, not_or] at h
    obtain ⟨q, qs, hq, hc⟩ := @split_cons sep c (Ne.symm h.1) (p ++ sep :: cs)
    rw [ih h.2] at hq
    simp only [List.cons.injEq] at hq
    rw [List.cons_append, hc, ← hq.1, ← hq.2]

theorem split_join {sep : Char} {ps : List (List Char)} (hne : ps ≠ [])
    (h : ∀ p ∈ ps, sep ∉ p) : split sep (join sep ps) = ps := by
  induction ps with
  | nil => exact absurd rfl hne
  | cons p ps ih =>
    cases ps with
    | nil => exact split_of_not_mem (h p List.mem_cons_self)
    | cons q qs =>
      rw [join, split_append (h p List.mem_cons_self), ih (by simp)]
      intro r hr
      exact h r (List.mem_cons_of_mem _ hr)

def splitString (sep : Char) (s : String) : List String :=
  (split sep s.toList).map String.ofList

end ClassListing.Text
