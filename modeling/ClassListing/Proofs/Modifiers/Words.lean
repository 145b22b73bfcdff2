import ClassListing.Proofs.Modifiers.Text
import ClassListing.Proofs.Text.Pieces

/-!
# The words of modifiers

The rendered form of modifiers is a list of words with blanks between them, so the words can be told from it:
the access word that takes precedence, and the word of every other flag but one.
-/

namespace ClassListing

set_option autoImplicit false

/-! ## Flags of parts -/

theorem Flag.not_mem_accessOrder {f : Flag} (hf : f ∈ renderOrder) : f ∉ accessOrder := by
  revert hf
  cases f <;> decide

namespace Modifiers

theorem has_eq_getLsbD (m : Modifiers) (f : Flag) : m.has f = m.bits.toBitVec.getLsbD f.index := by
  rw [has_eq_testBit]
  rfl

theorem has_and (m : Modifiers) (w : UInt32) (f : Flag) :
    (⟨m.bits &&& w⟩ : Modifiers).has f = (m.has f && (⟨w⟩ : Modifiers).has f) := by
  simp only [has_eq_getLsbD, UInt32.toBitVec_and, BitVec.getLsbD_and]

theorem has_ofFlag (f g : Flag) : (ofFlag f).has g = decide (f = g) := by
  cases f <;> cases g <;> rfl

theorem has_union (m n : Modifiers) (f : Flag) : (m.union n).has f = (m.has f || n.has f) := by
  simp only [has_eq_getLsbD, union, UInt32.toBitVec_or, BitVec.getLsbD_or]

theorem has_diff (m n : Modifiers) (f : Flag) : (m.diff n).has f = (m.has f && !n.has f) := by
  have hlt : f.index < 32 := by cases f <;> decide
  simp [has_eq_getLsbD, diff, hlt]

theorem has_access (m : Modifiers) (f : Flag) :
    m.access.has f = (m.has f && decide (f ∈ Flag.accessOrder)) := by
  have hmask : (⟨accessMask &&& declaredMask⟩ : Modifiers).has f =
      decide (f ∈ Flag.accessOrder) := by
    cases f <;> rfl
  rw [access, UInt32.and_assoc, has_and, hmask]

theorem has_nonAccess (m : Modifiers) (f : Flag) :
    m.nonAccess.has f = (m.has f && decide (f ∉ Flag.accessOrder)) := by
  have hmask : (⟨~~~accessMask &&& declaredMask⟩ : Modifiers).has f =
      decide (f ∉ Flag.accessOrder) := by
    cases f <;> rfl
  rw [nonAccess, UInt32.and_assoc, has_and, hmask]

theorem leadingAccess_access (m : Modifiers) : m.access.leadingAccess = m.leadingAccess := by
  simp [leadingAccess, Flag.accessOrder, List.find?_cons, has_access]

theorem leadingAccess_eq_none {m : Modifiers} (h : ∀ f ∈ Flag.accessOrder, m.has f = false) :
    m.leadingAccess = none := by
  rw [leadingAccess, List.find?_eq_none]
  intro f hf hm
  rw [h f hf] at hm
  cases hm

/-! ## Words -/

theorem words_access (m : Modifiers) : m.access.words = m.leadingAccess.toList.map Flag.word := by
  have hnone : Flag.renderOrder.filter m.access.has = [] := by
    apply List.filter_eq_nil_iff.mpr
    intro f hf
    simp [has_access, Flag.not_mem_accessOrder hf]
  rw [words, leadingAccess_access, hnone, List.append_nil]

theorem render_access (m : Modifiers) :
    m.access.render = " ".intercalate (m.leadingAccess.toList.map Flag.word) := by
  rw [render, words_access]

theorem render_access_eq (m : Modifiers) :
    m.access.render =
      if m.has .publicAccess then "public"
      else if m.has .privateAccess then "private"
      else if m.has .protectedAccess then "protected"
      else "" := by
  rw [render_access, leadingAccess, Flag.accessOrder]
  cases hpublic : m.has .publicAccess <;> cases hprivate : m.has .privateAccess <;>
    cases hprotected : m.has .protectedAccess <;>
    simp [hpublic, hprivate, hprotected, Flag.word]

theorem render_of_no_access {m : Modifiers} (h : ∀ f ∈ Flag.accessOrder, m.has f = false) :
    m.render = " ".intercalate ((Flag.renderOrder.filter m.has).map Flag.word) := by
  rw [render, words, leadingAccess_eq_none h]
  rfl

/-- Without access the text depends on the rendered flags only. -/
theorem render_congr {m n : Modifiers}
    (ha : ∀ f ∈ Flag.accessOrder, m.has f = false ∧ n.has f = false)
    (h : ∀ f ∈ Flag.renderOrder, m.has f = n.has f) : m.render = n.render := by
  rw [render_of_no_access fun f hf => (ha f hf).1, render_of_no_access fun f hf => (ha f hf).2,
    List.filter_congr h]

theorem items_render (m : Modifiers) :
    Text.items ' ' m.render.toList = m.words.map String.toList := by
  have hword : ∀ f : Flag, f.word.toList ≠ [] ∧ ' ' ∉ f.word.toList := by
    intro f
    cases f <;> decide
  have hwords : ∀ p ∈ m.words.map String.toList, p ≠ [] ∧ ' ' ∉ p := by
    intro p hp
    obtain ⟨w, hw, rfl⟩ := List.mem_map.mp hp
    obtain ⟨f, -, rfl⟩ := List.mem_map.mp hw
    exact hword f
  rw [render, String.toList_intercalate]
  exact Text.items_intercalate hwords

theorem not_mem_render {c : Char} (hc : c ≠ ' ') (h : ∀ f : Flag, c ∉ f.word.toList)
    (m : Modifiers) : c ∉ m.render.toList := by
  rw [render, String.toList_intercalate]
  apply Text.not_mem_intercalate hc
  intro p hp
  obtain ⟨w, hw, rfl⟩ := List.mem_map.mp hp
  obtain ⟨f, -, rfl⟩ := List.mem_map.mp hw
  exact h f

end Modifiers

namespace Flag

theorem word_injective {f g : Flag} (h : f.word = g.word) : f = g := by
  have hfind : ∀ f : Flag, all.find? (fun g => g.word = f.word) = some f := by
    intro f
    cases f <;> decide
  have hf := hfind f
  rw [h, hfind g] at hf
  exact (Option.some.inj hf).symm

/-- Whether a text of modifiers shows a flag. -/
def shownIn (text : List Char) (f : Flag) : Bool := (Text.items ' ' text).contains f.word.toList

theorem shownIn_render (m : Modifiers) (f : Flag) :
    f.shownIn m.render.toList =
      (decide (m.leadingAccess = some f) || decide (f ∈ renderOrder) && m.has f) := by
  have hword : ∀ fs : List Flag, f.word.toList ∈ (fs.map word).map String.toList ↔ f ∈ fs := by
    intro fs
    constructor
    · intro h
      obtain ⟨w, hw, hf⟩ := List.mem_map.mp h
      obtain ⟨g, hg, rfl⟩ := List.mem_map.mp hw
      have hgf : g = f := word_injective (String.toList_inj.mp hf)
      exact hgf ▸ hg
    · intro h
      exact List.mem_map_of_mem (List.mem_map_of_mem h)
  rw [shownIn, Modifiers.items_render, Bool.eq_iff_iff, List.contains_iff_mem, Modifiers.words, hword,
    List.mem_append, Option.mem_toList, List.mem_filter]
  simp

/-- The text of the access flags shows the one that takes precedence and no other. -/
theorem find?_shownIn_access (m : Modifiers) :
    accessOrder.find? (shownIn m.access.render.toList) = m.leadingAccess := by
  have hshown : ∀ f ∈ accessOrder,
      f.shownIn m.access.render.toList = decide (m.leadingAccess = some f) := by
    intro f hf
    have hr : f ∉ renderOrder := fun hr => not_mem_accessOrder hr hf
    rw [shownIn_render, Modifiers.leadingAccess_access]
    simp [hr]
  have hpublic := hshown publicAccess (by decide)
  have hprivate := hshown privateAccess (by decide)
  have hprotected := hshown protectedAccess (by decide)
  simp only [accessOrder, List.find?_cons, List.find?_nil, hpublic, hprivate, hprotected]
  cases hl : m.leadingAccess with
  | none => rfl
  | some g =>
    have hg : g ∈ accessOrder := List.mem_of_find?_eq_some hl
    revert hg
    cases g <;> decide

/-- Without access flags the text shows all flags but `synthetic`. -/
theorem filter_shownIn {m : Modifiers} (h : ∀ f ∈ accessOrder, m.has f = false) :
    all.filter (shownIn m.render.toList) = all.filter fun f => m.has f && decide (f ≠ synthetic) := by
  apply List.filter_congr
  intro f _
  rw [shownIn_render, Modifiers.leadingAccess_eq_none h]
  by_cases ha : f ∈ accessOrder
  · simp [h f ha]
  · have hr : f ∈ renderOrder ↔ f ≠ synthetic := by
      revert ha
      cases f <;> decide
    simp [hr, Bool.and_comm]

end Flag

end ClassListing
