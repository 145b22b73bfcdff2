import ClassListing.Modifiers.Text
import Mathlib.Data.List.TakeWhile

/-!
# Modifiers and their text

The flags of a word and its undeclared bits make up the word again, so reading the text of modifiers gives
them back: the names of the flags, and the other bits as one hexadecimal number.
-/

namespace ClassListing

set_option autoImplicit false

/-! ## Flags as bits -/

theorem Flag.toNat_mask (f : Flag) : f.mask.toNat = 1 <<< f.index := by cases f <;> rfl

namespace Modifiers

theorem and_one_shiftLeft (n k : Nat) :
    n &&& 1 <<< k = if n.testBit k then 1 <<< k else 0 := by
  rw [Nat.one_shiftLeft]
  apply Nat.eq_of_testBit_eq
  intro i
  rw [Nat.testBit_and, Nat.testBit_two_pow]
  by_cases hk : k = i
  · subst hk
    cases n.testBit k <;> simp
  · cases n.testBit k <;> simp [hk]

theorem has_eq_testBit (m : Modifiers) (f : Flag) : m.has f = m.bits.toNat.testBit f.index := by
  rw [Bool.eq_iff_iff, has, decide_eq_true_iff, ← UInt32.toNat_inj, UInt32.toNat_and,
    Flag.toNat_mask, and_one_shiftLeft]
  have hne : 1 <<< f.index ≠ 0 := by
    rw [Nat.one_shiftLeft]
    exact Nat.ne_of_gt (Nat.two_pow_pos _)
  cases m.bits.toNat.testBit f.index with
  | true => simp
  | false => simp [hne.symm]

/-- Of a single bit there is everything or nothing. -/
theorem and_mask (m : Modifiers) (f : Flag) :
    m.bits &&& f.mask = if m.has f then f.mask else 0 := by
  rw [has_eq_testBit, ← UInt32.toNat_inj, UInt32.toNat_and, Flag.toNat_mask, and_one_shiftLeft]
  split
  · exact (Flag.toNat_mask f).symm
  · rfl

theorem and_or_left (a b c : UInt32) : a &&& (b ||| c) = a &&& b ||| a &&& c :=
  UInt32.toBitVec_inj.mp BitVec.and_or_distrib_left

def maskOf (fs : List Flag) : UInt32 := fs.foldr (fun f mask => f.mask ||| mask) 0

theorem maskOf_all : maskOf Flag.all = declaredMask := by decide

theorem foldl_union_flags (m acc : Modifiers) (fs : List Flag) :
    ((fs.filter m.has).map ofFlag).foldl union acc = ⟨acc.bits ||| m.bits &&& maskOf fs⟩ := by
  induction fs generalizing acc with
  | nil => simp [maskOf]
  | cons f fs ih =>
    change _ = (⟨acc.bits ||| m.bits &&& (f.mask ||| maskOf fs)⟩ : Modifiers)
    rw [and_or_left, and_mask, List.filter_cons]
    cases hf : m.has f with
    | true =>
      simp only [if_true, List.map_cons, List.foldl_cons]
      rw [ih, union, ofFlag, UInt32.or_assoc]
    | false =>
      simp only [Bool.false_eq_true, if_false]
      rw [ih, UInt32.zero_or]

theorem declared_or_undeclared (m : Modifiers) : m.bits &&& declaredMask ||| m.undeclared = m.bits := by
  rw [undeclared, ← and_or_left, UInt32.or_not_self, UInt32.and_neg_one]

/-- The flags of modifiers, and their other bits if there are any. -/
def pieces (m : Modifiers) : List Modifiers :=
  (Flag.all.filter m.has).map ofFlag ++ if m.undeclared = 0 then [] else [⟨m.undeclared⟩]

theorem foldl_union_pieces (m : Modifiers) : m.pieces.foldl union empty = m := by
  rw [pieces, List.foldl_append, foldl_union_flags, maskOf_all, empty, UInt32.zero_or]
  split
  · next h =>
    have hm := m.declared_or_undeclared
    rw [h, UInt32.or_zero] at hm
    rw [hm]
    rfl
  · change (⟨m.bits &&& declaredMask ||| m.undeclared⟩ : Modifiers) = m
    rw [declared_or_undeclared]

end Modifiers

/-! ## Cutting the text into parts -/

namespace Text

theorem trim_padded {before p after : List Char} (hb : ∀ c ∈ before, isBlank c = true)
    (hp : ∀ c ∈ p, isBlank c = false) (ha : ∀ c ∈ after, isBlank c = true) :
    trim (before ++ p ++ after) = p := by
  have hdrop : ∀ q : List Char, (∀ c ∈ q, isBlank c = false) → q.dropWhile isBlank = q := by
    intro q hq
    cases q with
    | nil => rfl
    | cons c q => rw [List.dropWhile_cons_of_neg (by simp [hq c List.mem_cons_self])]
  have hrev : ∀ c ∈ after.reverse, isBlank c = true := fun c hc => ha c (List.mem_reverse.mp hc)
  rw [trim, List.append_assoc, List.dropWhile_append_of_pos hb]
  cases p with
  | nil =>
    rw [List.nil_append, List.dropWhile_eq_nil_iff.mpr ha]
    rfl
  | cons c p =>
    rw [List.cons_append, List.dropWhile_cons_of_neg (by simp [hp c List.mem_cons_self]),
      ← List.cons_append, List.reverse_append, List.dropWhile_append_of_pos hrev, hdrop,
      List.reverse_reverse]
    exact fun d hd => hp d (List.mem_reverse.mp hd)

theorem trim_blank_cons {c : Char} (h : isBlank c = true) (cs : List Char) :
    trim (c :: cs) = trim cs := by
  rw [trim, List.dropWhile_cons_of_pos h, trim]

/-- A text that is not blank does not become empty. -/
theorem trim_ne_nil {cs : List Char} {c : Char} (hc : c ∈ cs) (h : isBlank c = false) :
    trim cs ≠ [] := by
  intro ht
  rw [trim, List.reverse_eq_nil_iff, List.dropWhile_eq_nil_iff] at ht
  have hm : c ∈ cs.dropWhile isBlank := by
    rw [← List.takeWhile_append_dropWhile (p := isBlank) (l := cs), List.mem_append] at hc
    rcases hc with hm | hm
    · rw [List.mem_takeWhile_imp hm] at h
      cases h
    · exact hm
  rw [ht c (List.mem_reverse.mpr hm)] at h
  cases h

/-- The characters of parts are neither bars nor blanks. -/
def isSolid (c : Char) : Bool := c ≠ '|' && !isBlank c

theorem isSolid_iff {c : Char} : isSolid c = true ↔ c ≠ '|' ∧ isBlank c = false := by simp [isSolid]

/-- Parts joined by a bar with a space on each side come back. -/
theorem map_trim_split_bars (ps : List (List Char)) (hne : ps ≠ [])
    (h : ∀ p ∈ ps, ∀ c ∈ p, isSolid c = true) :
    (split '|' ([' ', '|', ' '].intercalate ps)).map trim = ps := by
  have hblank : isBlank ' ' = true := rfl
  have hspace : ∀ cs, (split '|' (' ' :: cs)).map trim = (split '|' cs).map trim := by
    intro cs
    obtain ⟨q, qs, hq, hc⟩ := @split_cons '|' ' ' (by decide) cs
    rw [hc, hq, List.map_cons, List.map_cons, trim_blank_cons hblank]
  induction ps with
  | nil => exact absurd rfl hne
  | cons p ps ih =>
    have hp := h p List.mem_cons_self
    have hbar : '|' ∉ p := fun hm => (isSolid_iff.mp (hp _ hm)).1 rfl
    have hsolid : ∀ c ∈ p, isBlank c = false := fun c hc => (isSolid_iff.mp (hp c hc)).2
    have hrest : ∀ q ∈ ps, ∀ c ∈ q, isSolid c = true := fun q hq => h q (List.mem_cons_of_mem _ hq)
    cases ps with
    | nil =>
      have ht : trim ([] ++ p ++ []) = p :=
        trim_padded (by simp) hsolid (by simp)
      rw [List.nil_append, List.append_nil] at ht
      rw [List.intercalate_singleton, split_of_not_mem hbar, List.map_singleton, ht]
    | cons q qs =>
      have ht : trim ([] ++ p ++ [' ']) = p :=
        trim_padded (by simp) hsolid (by simp [hblank])
      have hcut : [' ', '|', ' '].intercalate (p :: q :: qs) =
          (p ++ [' ']) ++ '|' :: (' ' :: [' ', '|', ' '].intercalate (q :: qs)) := by
        rw [List.intercalate_cons_cons]
        simp
      have hspaced : '|' ∉ p ++ [' '] := by simp [hbar]
      rw [hcut, split_append hspaced, List.map_cons, hspace, ih (by simp) hrest]
      exact congrArg (· :: q :: qs) ht

/-! ## Hexadecimal numerals -/

theorem hexNumber?_append (n : Nat) (cs ds : List Char) :
    hexNumber? n (cs ++ ds) = (hexNumber? n cs).bind (hexNumber? · ds) := by
  induction cs generalizing n with
  | nil => rfl
  | cons c cs ih =>
    rw [List.cons_append, hexNumber?, hexNumber?]
    cases hexValue? c with
    | none => rfl
    | some d => exact ih (16 * n + d)

theorem hexNumber?_hexDigits (n : Nat) : hexNumber? 0 (hexDigits n) = some n := by
  induction n using Nat.strongRecOn with
  | ind n ih =>
    rw [hexDigits, Nat.toDigits_eq_if (by decide)]
    split
    · next hn => simp [hexNumber?, hexValue?_hexDigit n hn]
    · next hn =>
      have hmod : n % 16 < 16 := Nat.mod_lt _ (by decide)
      have hq := ih (n / 16) (by omega)
      rw [hexDigits] at hq
      rw [hexNumber?_append, hq]
      simp only [Option.bind_some, hexNumber?, hexValue?_hexDigit _ hmod]
      rw [Nat.div_add_mod]

theorem exists_hexValue? {n m : Nat} {cs : List Char} (h : hexNumber? n cs = some m) :
    ∀ c ∈ cs, ∃ d, hexValue? c = some d := by
  induction cs generalizing n with
  | nil => exact fun _ hc => by cases hc
  | cons c cs ih =>
    rw [hexNumber?] at h
    obtain ⟨d, hd, hrest⟩ := Option.bind_eq_some_iff.mp h
    intro b hb
    rcases List.mem_cons.mp hb with rfl | hb
    · exact ⟨d, hd⟩
    · exact ih hrest b hb

theorem isSolid_of_hexValue? {c : Char} {d : Nat} (h : hexValue? c = some d) : isSolid c = true := by
  have hr : (48 ≤ c.toNat ∧ c.toNat ≤ 57) ∨ (97 ≤ c.toNat ∧ c.toNat ≤ 102) ∨
      (65 ≤ c.toNat ∧ c.toNat ≤ 70) := by
    unfold hexValue? at h
    simp only [Bool.and_eq_true, decide_eq_true_eq, Char.le_def, UInt32.le_iff_toNat_le] at h
    split at h
    · next hc => exact Or.inl hc
    · split at h
      · next hc => exact Or.inr (Or.inl hc)
      · split at h
        · next hc => exact Or.inr (Or.inr hc)
        · cases h
  refine isSolid_iff.mpr ⟨?_, ?_⟩
  · rintro rfl
    revert hr
    decide
  · simp only [isBlank, List.contains_eq_mem, List.mem_cons, List.not_mem_nil, or_false,
      Bool.or_eq_false_iff, Bool.and_eq_false_iff, decide_eq_false_iff_not]
    omega

end Text

/-! ## Reading the text back -/

namespace Modifiers

theorem wordOfHex?_hexDigits (w : UInt32) : wordOfHex? (Text.hexDigits w.toNat) = some w := by
  have hn := Text.hexNumber?_hexDigits w.toNat
  have hne : Text.hexDigits w.toNat ≠ [] := Nat.toDigits_ne_nil
  unfold wordOfHex?
  split
  · next rest heq =>
    obtain ⟨d, hd⟩ := Text.exists_hexValue? hn '+' (heq ▸ List.mem_cons_self)
    cases hd
  · simp only [hne, if_false, hn, Option.bind_some]
    simp [w.toNat_lt]

theorem ofPart_name (f : Flag) : ofPart f.name.toList = .ok (ofFlag f) := by
  cases f <;> rfl

theorem ofParts_eq_foldl {parts : List (List Char)} {ms : List Modifiers}
    (h : parts.map (fun p => ofPart (Text.trim p)) = ms.map .ok) (m : Modifiers) :
    ofParts m parts = .ok (ms.foldl union m) := by
  induction parts generalizing ms m with
  | nil =>
    rw [List.map_nil, eq_comm, List.map_eq_nil_iff] at h
    rw [h]
    rfl
  | cons p parts ih =>
    cases ms with
    | nil => cases h
    | cons n ms =>
      rw [List.map_cons, List.map_cons, List.cons.injEq] at h
      rw [ofParts, h.1]
      exact ih h.2 (m.union n)

theorem map_ofPart_parts (m : Modifiers) :
    m.parts.map (fun p => ofPart p.toList) = m.pieces.map .ok := by
  rw [parts, pieces, List.map_append, List.map_append, List.map_map, List.map_map]
  congr 1
  · exact List.map_congr_left fun f _ => ofPart_name f
  · split
    · rfl
    · simp [ofPart, wordOfHex?_hexDigits]

theorem isSolid_of_mem_name (f : Flag) : ∀ c ∈ f.name.toList, Text.isSolid c = true := by
  apply List.all_eq_true.mp
  cases f <;> rfl

theorem isSolid_of_mem_parts (m : Modifiers) :
    ∀ p ∈ m.parts, ∀ c ∈ p.toList, Text.isSolid c = true := by
  intro p hp
  rcases List.mem_append.mp hp with hp | hp
  · obtain ⟨f, -, rfl⟩ := List.mem_map.mp hp
    exact isSolid_of_mem_name f
  · split at hp
    · cases hp
    · rw [List.mem_singleton.mp hp, String.toList_ofList]
      intro c hc
      rcases List.mem_append.mp hc with hc | hc
      · have hx : ['0', 'x'].all Text.isSolid = true := rfl
        exact List.all_eq_true.mp hx c hc
      · obtain ⟨d, hd⟩ := Text.exists_hexValue? (Text.hexNumber?_hexDigits m.undeclared.toNat) c hc
        exact Text.isSolid_of_hexValue? hd

theorem toList_toText (m : Modifiers) :
    m.toText.toList = [' ', '|', ' '].intercalate (m.parts.map String.toList) :=
  String.toList_intercalate

theorem trim_toText_ne_nil {m : Modifiers} (h : m.parts ≠ []) : Text.trim m.toText.toList ≠ [] := by
  obtain ⟨p, ps, hp⟩ := List.exists_cons_of_ne_nil h
  have hparts := m.map_ofPart_parts
  have hsolid := m.isSolid_of_mem_parts p (hp ▸ List.mem_cons_self)
  rw [hp, List.map_cons] at hparts
  cases hc : p.toList with
  | nil =>
    -- an empty part could not be read
    obtain ⟨n, ns, -, hn, -⟩ := List.map_eq_cons_iff.mp hparts.symm
    rw [hc] at hn
    cases hn
  | cons c cs =>
    refine Text.trim_ne_nil (c := c) ?_ (Text.isSolid_iff.mp (hsolid c (hc ▸ List.mem_cons_self))).2
    rw [toList_toText, hp, List.map_cons, hc]
    cases ps with
    | nil => simp
    | cons q qs => simp [List.intercalate_cons_cons]

theorem ofText_toText (m : Modifiers) : ofText m.toText = .ok m := by
  by_cases hp : m.parts = []
  · -- no flags and no other bits: the text is blank
    have hm := m.map_ofPart_parts
    rw [hp, List.map_nil, eq_comm, List.map_eq_nil_iff] at hm
    have hf := m.foldl_union_pieces
    rw [hm] at hf
    rw [ofText, toList_toText, hp, ← hf]
    rfl
  · have hcut := Text.map_trim_split_bars (m.parts.map String.toList) (by simpa using hp)
      (by simpa using m.isSolid_of_mem_parts)
    have hms : (Text.split '|' m.toText.toList).map (fun p => ofPart (Text.trim p)) =
        m.pieces.map .ok := by
      rw [← map_ofPart_parts, toList_toText]
      simpa [Function.comp_def] using congrArg (List.map ofPart) hcut
    rw [ofText, if_neg (trim_toText_ne_nil hp), ofParts_eq_foldl hms, foldl_union_pieces]

end Modifiers

end ClassListing
