import ClassListing.Proofs.Modifiers.Words

/-!
# What a text of modifiers says

A legend gives the words and the bits that they stand for, in the order of the text. The words of a text are
those whose bits are set, except that of the access words there is only the first. So two texts are
the same if and only if the modifiers agree on that word and on the bits of the other words.
-/

namespace ClassListing.Modifiers

set_option autoImplicit false

/-! ## The two parts of modifiers -/

theorem access_and_nonAccess (m : Modifiers) : m.access.bits &&& m.nonAccess.bits = 0 := by
  have hmask : (accessMask &&& declaredMask) &&& (~~~accessMask &&& declaredMask) = 0 := by decide
  have hbits : m.access.bits &&& m.nonAccess.bits = (m.bits &&& m.bits) &&&
      ((accessMask &&& declaredMask) &&& (~~~accessMask &&& declaredMask)) := by
    simp only [access, nonAccess]
    ac_rfl
  rw [hbits, hmask, UInt32.and_zero]

theorem access_union_nonAccess (m : Modifiers) : m.access.union m.nonAccess = m.declared := by
  have hmask : (accessMask &&& declaredMask) ||| (~~~accessMask &&& declaredMask) = declaredMask := by
    decide
  rw [union, access, nonAccess, declared, UInt32.and_assoc, UInt32.and_assoc, ← and_or_left, hmask]

theorem words_nonAccess (m : Modifiers) :
    m.nonAccess.words = (Flag.renderOrder.filter m.has).map Flag.word := by
  have hnone : m.nonAccess.leadingAccess = none := by
    apply leadingAccess_eq_none
    intro f hf
    simp [has_nonAccess, hf]
  have hrest : Flag.renderOrder.filter m.nonAccess.has = Flag.renderOrder.filter m.has := by
    apply List.filter_congr
    intro f hf
    simp [has_nonAccess, Flag.not_mem_accessOrder hf]
  rw [words, hnone, hrest]
  rfl

theorem words_eq_append (m : Modifiers) : m.words = m.access.words ++ m.nonAccess.words := by
  rw [words_access, words_nonAccess, words, List.map_append]

theorem word_ne_empty {m : Modifiers} {w : String} (hw : w ∈ m.words) : w ≠ "" := by
  obtain ⟨f, -, rfl⟩ := List.mem_map.mp hw
  cases f <;> decide

theorem render_eq_empty_iff (m : Modifiers) : m.render = "" ↔ m.words = [] := by
  have hitems := m.items_render
  constructor
  · intro h
    rw [h] at hitems
    exact List.map_eq_nil_iff.mp hitems.symm
  · intro h
    rw [render, h, String.intercalate_nil]

/-- The parts that show anything, with a blank between them. -/
theorem render_eq_parts (m : Modifiers) :
    m.render = " ".intercalate ([m.access.render, m.nonAccess.render].filter (· ≠ "")) := by
  have hwords := m.words_eq_append
  by_cases ha : m.access.words = []
  · have hm : m.render = m.nonAccess.render := by
      rw [render, hwords, ha, List.nil_append, render]
    have hempty := (render_eq_empty_iff _).mpr ha
    by_cases hn : m.nonAccess.render = ""
    · simp [hm, hempty, hn]
    · simp [hm, hempty, hn]
  · have hshown : m.access.render ≠ "" := mt (render_eq_empty_iff _).mp ha
    by_cases hn : m.nonAccess.words = []
    · have hm : m.render = m.access.render := by
        rw [render, hwords, hn, List.append_nil, render]
      have hempty := (render_eq_empty_iff _).mpr hn
      simp [hm, hempty, hshown]
    · have hshown' : m.nonAccess.render ≠ "" := mt (render_eq_empty_iff _).mp hn
      rw [render, hwords, String.intercalate_append_of_ne_nil ha hn, ← render, ← render]
      simp [hshown, hshown', String.append_assoc]

/-! ## The legend -/

/-- The access words with their bits; the first one whose bit is set is shown. -/
def accessLegend : List (UInt32 × String) :=
  [(0x0001, "public"), (0x0002, "private"), (0x0004, "protected")]

/-- The other words with their bits, in the order in which they are shown. -/
def legend : List (UInt32 × String) :=
  [(0x0400, "abstract"), (0x0008, "static"), (0x0010, "final"), (0x0020, "synchronized"),
   (0x0100, "native"), (0x0080, "transient"), (0x0040, "volatile"), (0x0800, "strictfp"),
   (0x2000, "annotation"), (0x4000, "enum"), (0x0200, "interface")]

def sets (m : Modifiers) (entry : UInt32 × String) : Bool := m.bits &&& entry.1 ≠ 0

def accessWords (m : Modifiers) : List String := ((accessLegend.find? m.sets).map Prod.snd).toList

def isAccessWord (w : String) : Bool := accessLegend.any fun entry => entry.2 = w

/-- The declared bits but those of access and the synthetic one. -/
def shownMask : UInt32 := declaredMask &&& ~~~accessMask &&& ~~~Flag.synthetic.mask

theorem accessLegend_eq : accessLegend = Flag.accessOrder.map fun f => (f.mask, f.word) := by decide

theorem legend_eq : legend = Flag.renderOrder.map fun f => (f.mask, f.word) := by decide

theorem sets_flag (m : Modifiers) (f : Flag) : m.sets (f.mask, f.word) = m.has f := by
  have hne : f.mask ≠ 0 := by cases f <;> decide
  rw [sets, and_mask]
  cases m.has f with
  | true => simp [hne]
  | false => simp

theorem accessWords_eq (m : Modifiers) :
    m.accessWords = m.leadingAccess.toList.map Flag.word := by
  have hsets : (m.sets ∘ fun f : Flag => (f.mask, f.word)) = m.has := funext m.sets_flag
  rw [accessWords, accessLegend_eq, List.find?_map, hsets, ← leadingAccess]
  cases m.leadingAccess <;> rfl

theorem length_accessWords_le (m : Modifiers) : m.accessWords.length ≤ 1 := by
  rw [accessWords]
  cases accessLegend.find? m.sets with
  | none => exact Nat.zero_le 1
  | some entry => exact Nat.le_refl 1

theorem words_eq_legend (m : Modifiers) :
    m.words = m.accessWords ++ (legend.filter m.sets).map Prod.snd := by
  have hsets : (m.sets ∘ fun f : Flag => (f.mask, f.word)) = m.has := funext m.sets_flag
  rw [words, List.map_append, accessWords_eq, legend_eq, List.filter_map, hsets, List.map_map]
  rfl

theorem filter_isAccessWord (m : Modifiers) : m.words.filter isAccessWord = m.accessWords := by
  have haccess : ∀ f ∈ Flag.accessOrder, isAccessWord f.word = true := by decide
  have hother : ∀ entry ∈ legend, isAccessWord entry.2 = false := by decide
  have hfirst : m.accessWords.filter isAccessWord = m.accessWords := by
    apply List.filter_eq_self.mpr
    intro w hw
    rw [accessWords_eq] at hw
    obtain ⟨f, hf, rfl⟩ := List.mem_map.mp hw
    exact haccess f (List.mem_of_find?_eq_some (Option.mem_toList.mp hf))
  have hrest : ((legend.filter m.sets).map Prod.snd).filter isAccessWord = [] := by
    apply List.filter_eq_nil_iff.mpr
    intro w hw
    obtain ⟨entry, hentry, rfl⟩ := List.mem_map.mp hw
    simp [hother entry (List.mem_filter.mp hentry).1]
  rw [words_eq_legend, List.filter_append, hfirst, hrest, List.append_nil]

/-- The words are some of those in the legend, in its order. -/
theorem words_sublist (m : Modifiers) : m.words.Sublist ((accessLegend ++ legend).map Prod.snd) := by
  have hfirst : m.accessWords.Sublist (accessLegend.map Prod.snd) := by
    rw [accessWords]
    cases h : accessLegend.find? m.sets with
    | none => exact List.nil_sublist _
    | some entry =>
      exact List.singleton_sublist.mpr (List.mem_map_of_mem (List.mem_of_find?_eq_some h))
  rw [words_eq_legend, List.map_append]
  exact hfirst.append (List.filter_sublist.map Prod.snd)

/-! ## Modifiers with the same text -/

theorem maskOf_renderOrder : maskOf Flag.renderOrder = shownMask := by decide

theorem and_maskOf_congr {m n : Modifiers} {fs : List Flag} (h : ∀ f ∈ fs, m.has f = n.has f) :
    m.bits &&& maskOf fs = n.bits &&& maskOf fs := by
  induction fs with
  | nil => simp [maskOf]
  | cons f fs ih =>
    have hf := h f List.mem_cons_self
    have hfs := ih fun g hg => h g (List.mem_cons_of_mem f hg)
    change m.bits &&& (f.mask ||| maskOf fs) = n.bits &&& (f.mask ||| maskOf fs)
    rw [and_or_left, and_or_left, and_mask, and_mask, hf, hfs]

theorem words_eq_of_render_eq {m n : Modifiers} (h : m.render = n.render) : m.words = n.words := by
  have hitems := m.items_render
  rw [h, n.items_render] at hitems
  exact ((List.map_inj_right fun _ _ => String.toList_inj.mp).mp hitems).symm

theorem has_eq_of_render_eq {m n : Modifiers} (h : m.render = n.render) {f : Flag}
    (hf : f ∈ Flag.renderOrder) : m.has f = n.has f := by
  have hshown : ∀ k : Modifiers, f.shownIn k.render.toList = k.has f := by
    intro k
    have hne : k.leadingAccess ≠ some f := by
      intro hk
      exact Flag.not_mem_accessOrder hf (List.mem_of_find?_eq_some hk)
    rw [Flag.shownIn_render]
    simp [hne, hf]
  rw [← hshown m, h, hshown n]

theorem render_eq_iff (m n : Modifiers) :
    m.render = n.render ↔
      m.accessWords = n.accessWords ∧ m.bits &&& shownMask = n.bits &&& shownMask := by
  constructor
  · intro h
    refine ⟨?_, ?_⟩
    · rw [← filter_isAccessWord, ← filter_isAccessWord, words_eq_of_render_eq h]
    · rw [← maskOf_renderOrder]
      exact and_maskOf_congr fun f hf => has_eq_of_render_eq h hf
  · rintro ⟨ha, hbits⟩
    have hmask : ∀ entry ∈ legend, entry.1 = shownMask &&& entry.1 := by decide
    have hrest : legend.filter m.sets = legend.filter n.sets := by
      apply List.filter_congr
      intro entry hentry
      rw [sets, sets, hmask entry hentry, ← UInt32.and_assoc, ← UInt32.and_assoc, hbits]
    rw [render, render, words_eq_legend, words_eq_legend, ha, hrest]

/-- The access flags and the others divide the declared ones, and the text is that of the two parts. Cut at
single blanks, where an empty text has no words, it gives the first access word whose bit is set, if
any, and the other words whose bits are set, none twice and all in the order of the legend, which
has no word for the synthetic bit. So two texts are the same if and only if that first word and the
bits of the other words are. -/
theorem text_says_set_flags (m : Modifiers) :
    let ws := (Text.items ' ' m.render.toList).map String.ofList
    m.access.bits &&& m.nonAccess.bits = 0 ∧
      m.access.union m.nonAccess = m.declared ∧
      m.render = " ".intercalate ([m.access.render, m.nonAccess.render].filter (· ≠ "")) ∧
      ws = m.accessWords ++ (legend.filter m.sets).map Prod.snd ∧
      ws.filter isAccessWord = m.accessWords ∧ m.accessWords.length ≤ 1 ∧
      ws.Nodup ∧ "synthetic" ∉ ws ∧ "" ∉ ws ∧
      ∀ n : Modifiers, m.render = n.render ↔
        m.accessWords = n.accessWords ∧ m.bits &&& shownMask = n.bits &&& shownMask := by
  intro ws
  have hws : ws = m.words := by
    change (Text.items ' ' m.render.toList).map String.ofList = m.words
    rw [items_render, List.map_map]
    exact (List.map_congr_left fun w _ => String.ofList_toList).trans (List.map_id _)
  have hsub := m.words_sublist
  have hnodup : ((accessLegend ++ legend).map Prod.snd).Nodup := by decide
  have hsynthetic : "synthetic" ∉ (accessLegend ++ legend).map Prod.snd := by decide
  rw [hws]
  refine ⟨m.access_and_nonAccess, m.access_union_nonAccess, m.render_eq_parts, m.words_eq_legend,
    m.filter_isAccessWord, m.length_accessWords_le, hnodup.sublist hsub, ?_, ?_, m.render_eq_iff⟩
  · intro hm
    exact hsynthetic (hsub.subset hm)
  · intro hm
    exact word_ne_empty hm rfl

end ClassListing.Modifiers
