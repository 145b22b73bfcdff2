import ClassListing.Proofs.Renderer.Text
import ClassListing.Renderer.Lines

/-!
# Class files and class names

The names of class files give the names of classes, and the other way round, as far as dots and slashes stay
apart: a dot in the path of an entry comes back as a slash, and a slash in the name of a class as a
dot.
-/

namespace ClassListing

set_option autoImplicit false

namespace Renderer

/-! ## Dots and slashes -/

theorem slashed_dotted (s : List Char) : slashed (dotted s) = slashed s := by
  unfold slashed dotted
  rw [List.map_map]
  refine List.map_congr_left fun c _ => ?_
  by_cases hs : c = '/'
  · subst hs
    rfl
  · simp [hs]

theorem dotted_slashed (s : List Char) : dotted (slashed s) = dotted s := by
  unfold slashed dotted
  rw [List.map_map]
  refine List.map_congr_left fun c _ => ?_
  by_cases hd : c = '.'
  · subst hd
    rfl
  · simp [hd]

theorem map_replace_eq_self {a b : Char} (hab : a ≠ b) {s : List Char} :
    (s.map fun c => if c = a then b else c) = s ↔ a ∉ s := by
  induction s with
  | nil => simp
  | cons c s ih =>
    by_cases hc : c = a
    · simp [hc, hab.symm]
    · simp [hc, ih, Ne.symm hc]

theorem slashed_eq_self {s : List Char} : slashed s = s ↔ '.' ∉ s := map_replace_eq_self (by decide)

theorem dotted_eq_self {s : List Char} : dotted s = s ↔ '/' ∉ s := map_replace_eq_self (by decide)

/-! ## Class files -/

theorem classNameOf?_classFile (n : String) :
    classNameOf? (classFile n) = some (String.ofList (dotted n.toList)) :=
  classNameOf?_eq_some.mpr ⟨slashed n.toList, rfl, by rw [dotted_slashed]⟩

/-- The class file of a class that has been found in an archive. -/
theorem classFile_dotted (stem : List Char) :
    classFile (String.ofList (dotted stem)) = String.ofList (slashed stem) ++ classSuffix := by
  rw [classFile, String.toList_ofList, slashed_dotted]

theorem classFile_eq_iff {p n : String} (h : classNameOf? p = some n) {stem : List Char}
    (hp : p = String.ofList stem ++ classSuffix) : classFile n = p ↔ '.' ∉ stem := by
  obtain ⟨stem', hp', rfl⟩ := classNameOf?_eq_some.mp h
  have hstem : stem' = stem := by
    have := congrArg String.toList (hp'.symm.trans hp)
    simpa using this
  subst hstem hp
  rw [classFile_dotted, ← slashed_eq_self]
  constructor
  · intro heq
    simpa using congrArg String.toList heq
  · intro heq
    rw [heq]

theorem join_map_blank {α : Type} (xs : List α) : String.join (xs.map fun _ => "") = "" := by
  induction xs with
  | nil => rfl
  | cons x xs ih => rw [List.map_cons, String.join_cons, ih, String.append_empty]

/-- A class with a member to show has one line, the name of its class file. -/
theorem render_classFiles {caller : Option (Filter Member)} {c : JavaClass}
    (h : ∃ m ∈ c.members, (activeFilter caller).accept m = true) :
    (classFiles caller).render c = .ok (some (classFile c.name ++ lineEnd)) := by
  obtain ⟨m, hm, ha⟩ := h
  have hne : c.members.filter (classFiles caller).filter.accept ≠ [] :=
    List.ne_nil_of_mem (List.mem_filter.mpr ⟨hm, ha⟩)
  have htexts : (c.members.filter (classFiles caller).filter.accept).mapM
      (classFiles caller).renderMember = .ok ((c.members.filter _).map fun _ => "") :=
    mapM_of_ok fun _ _ => rfl
  rw [render_eq, textOf, if_neg hne, htexts, Except.map, join_map_blank]
  simp [classFiles, lineEnd]

end Renderer

end ClassListing
