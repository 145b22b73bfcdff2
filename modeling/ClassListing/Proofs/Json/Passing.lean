import ClassListing.Proofs.Json.Skipping

/-!
# Only values are passed over

If passing over succeeds on bytes that are a text, a value has been passed over: the bytes taken are spelled by
the grammar. Inside of strings nothing but the form is checked, so this does not hold of bytes that are
no text.
-/

namespace ClassListing

set_option autoImplicit false

namespace Json

/-! ## Texts -/

def IsText (s : Bytes) : Prop := ∃ cs, s = encode cs

theorem isText_toUTF8 (text : String) : IsText text.toUTF8.data.toList :=
  ⟨text.toList, by rw [← toUTF8_ofList, String.ofList_toList]⟩

/-- The bytes that are characters of their own. -/
def Ascii (s : Bytes) : Prop := ∀ b ∈ s, b < 0x80

instance (s : Bytes) : Decidable (Ascii s) := List.decidableBAll (· < 0x80) s

theorem Ascii.append {s t : Bytes} (hs : Ascii s) (ht : Ascii t) : Ascii (s ++ t) :=
  List.forall_mem_append.mpr ⟨hs, ht⟩

theorem utf8EncodeChar_of_lt {c : Char} (h : c.toNat < 0x80) :
    String.utf8EncodeChar c = [UInt8.ofNat c.toNat] := by
  have hle : c.val.toNat ≤ 127 := Nat.le_of_lt_succ h
  unfold String.utf8EncodeChar
  simp only [hle, if_true]
  rfl

theorem IsText.of_cons {b : UInt8} {s : Bytes} (h : IsText (b :: s)) (hb : b < 0x80) : IsText s := by
  obtain ⟨cs, hcs⟩ := h
  cases cs with
  | nil => cases hcs
  | cons c cs =>
    rw [encode_cons] at hcs
    rcases utf8EncodeChar_cases c with ⟨-, hc⟩ | hc
    · rw [hc] at hcs
      exact ⟨cs, (List.cons.inj hcs).2⟩
    · obtain ⟨d, ds, hd⟩ := List.exists_cons_of_ne_nil
        (String.utf8EncodeChar_ne_nil : String.utf8EncodeChar c ≠ [])
      rw [hd] at hc hcs
      obtain rfl := (List.cons.inj hcs).1
      exact absurd hb (UInt8.not_lt.mpr (hc b List.mem_cons_self))

theorem IsText.of_append {w s : Bytes} (h : IsText (w ++ s)) (hw : Ascii w) : IsText s := by
  induction w with
  | nil => exact h
  | cons b w ih =>
    obtain ⟨hb, hw⟩ := List.forall_mem_cons.mp hw
    exact ih (h.of_cons hb) hw

theorem Blank.ascii {w : Bytes} (h : Blank w) : Ascii w := by
  intro b hb
  have hblank := h b hb
  simp only [isBlank, Bool.or_eq_true, decide_eq_true_eq] at hblank
  rcases hblank with ((rfl | rfl) | rfl) | rfl <;> decide

theorem Blank.append {w w' : Bytes} (hw : Blank w) (hw' : Blank w') : Blank (w ++ w') :=
  List.forall_mem_append.mpr ⟨hw, hw'⟩

/-- What follows a mark behind blanks. -/
theorem IsText.of_blank_cons {w s : Bytes} {b : UInt8} (h : IsText (w ++ b :: s)) (hw : Blank w)
    (hb : b < 0x80) : IsText s := (h.of_append hw.ascii).of_cons hb

theorem exists_blank (s : Bytes) : ∃ w, Blank w ∧ s = w ++ skipBlank s :=
  ⟨s.takeWhile isBlank, List.all_eq_true.mp List.all_takeWhile, List.takeWhile_append_dropWhile.symm⟩

/-- The first byte that is not blank. -/
theorem exists_blank_cons {s r : Bytes} {b : UInt8} (h : skipBlank s = b :: r) :
    ∃ w, Blank w ∧ s = w ++ b :: r := h ▸ exists_blank s

/-! ## Strings -/

theorem lt_of_hexByte? {b : UInt8} {n : Nat} (h : hexByte? b = some n) : b < 0x80 := by
  have hall : ∀ m < 256, (hexByte? (UInt8.ofNat m)).isSome = true → UInt8.ofNat m < 0x80 := by
    decide +kernel
  have hb := hall b.toNat b.toNat_lt
  rw [UInt8.ofNat_toNat] at hb
  exact hb (by rw [h]; rfl)

theorem ascii_of_hexUnit? {d₁ d₂ d₃ d₄ : UInt8} {n : Nat} (h : hexUnit? d₁ d₂ d₃ d₄ = some n) :
    Ascii [d₁, d₂, d₃, d₄] := by
  unfold hexUnit? at h
  split at h
  · next h₁ h₂ h₃ h₄ =>
    simp only [Ascii, List.forall_mem_cons]
    exact ⟨lt_of_hexByte? h₁, lt_of_hexByte? h₂, lt_of_hexByte? h₃, lt_of_hexByte? h₄, by simp⟩
  · cases h

theorem exists_letter {e c : UInt8} (h : simpleEscape? e = some c) :
    e < 0x80 ∧ ∃ p ∈ shortEscapes, String.utf8EncodeChar p.1 = [e] := by
  unfold simpleEscape? at h
  split at h
  · next he =>
    simp only [Bool.or_eq_true, decide_eq_true_eq] at he
    rcases he with (rfl | rfl) | rfl
    · exact ⟨by decide, ('"', '"'), by decide, rfl⟩
    · exact ⟨by decide, ('\\', '\\'), by decide, rfl⟩
    · exact ⟨by decide, ('/', '/'), by decide, rfl⟩
  split at h
  · next he => exact he ▸ ⟨by decide, ('b', backspace), by decide, rfl⟩
  split at h
  · next he => exact he ▸ ⟨by decide, ('f', formFeed), by decide, rfl⟩
  split at h
  · next he => exact he ▸ ⟨by decide, ('n', '\n'), by decide, rfl⟩
  split at h
  · next he => exact he ▸ ⟨by decide, ('r', '\r'), by decide, rfl⟩
  split at h
  · next he => exact he ▸ ⟨by decide, ('t', '\t'), by decide, rfl⟩
  · cases h

/-- A text that does not begin with a quote, a backslash or a control character begins with a character that stands
for itself. -/
theorem IsText.exists_char {b : UInt8} {r : Bytes} (h : IsText (b :: r)) (hquote : b ≠ 0x22)
    (hslash : b ≠ 0x5C) (hcontrol : ¬b < 0x20) :
    ∃ (c : Char) (s : Bytes), (c ≠ '"' ∧ c ≠ '\\' ∧ 0x20 ≤ c.toNat) ∧ IsText s ∧
      b :: r = String.utf8EncodeChar c ++ s := by
  obtain ⟨cs, hcs⟩ := h
  cases cs with
  | nil => cases hcs
  | cons c cs =>
    rw [encode_cons] at hcs
    refine ⟨c, encode cs, ?_, ⟨cs, rfl⟩, hcs⟩
    by_cases hlt : c.toNat < 0x80
    · rw [utf8EncodeChar_of_lt hlt] at hcs
      obtain rfl := (List.cons.inj hcs).1
      refine ⟨fun hc => hquote (hc ▸ rfl), fun hc => hslash (hc ▸ rfl), ?_⟩
      rw [UInt8.lt_iff_toNat_lt, UInt8.toNat_ofNat', Nat.mod_eq_of_lt (by omega)] at hcontrol
      exact Nat.not_lt.mp hcontrol
    · refine ⟨fun hc => hlt (hc ▸ by decide), fun hc => hlt (hc ▸ by decide), ?_⟩
      omega

/-- After a backslash only a letter or a unit is passed over. -/
theorem exists_escape {r rest : Bytes} (hr : IsText r) (h : skipString (0x5C :: r) = .ok rest) :
    ∃ (p : Piece) (s : Bytes), 0x5C :: r = p.spell ++ s ∧ IsText s := by
  cases r with
  | nil => rw [skipString.eq_def] at h; cases h
  | cons e r =>
    by_cases hunit : e = 0x75
    · subst hunit
      rcases r with _ | ⟨d₁, _ | ⟨d₂, _ | ⟨d₃, _ | ⟨d₄, r⟩⟩⟩⟩
      · rw [skipString.eq_def] at h; cases h
      · rw [skipString.eq_def] at h; cases h
      · rw [skipString.eq_def] at h; cases h
      · rw [skipString.eq_def] at h; cases h
      · cases hu : hexUnit? d₁ d₂ d₃ d₄ with
        | none => rw [skipString.eq_def] at h; simp [hu] at h
        | some n =>
          have htail := hr.of_cons (by decide)
          exact ⟨.unit d₁ d₂ d₃ d₄ n hu, r, rfl,
            htail.of_append (w := [d₁, d₂, d₃, d₄]) (ascii_of_hexUnit? hu)⟩
    · cases he : simpleEscape? e with
      | none => rw [skipString.eq_def] at h; simp [hunit, he] at h
      | some c =>
        obtain ⟨hlt, ⟨letter, d⟩, hmem, hletter⟩ := exists_letter he
        exact ⟨.short letter d hmem, r, by rw [Piece.spell, hletter]; rfl, hr.of_cons hlt⟩

theorem exists_piece {s rest : Bytes} (hs : IsText s) (h : skipString s = .ok rest) :
    s = 0x22 :: rest ∨ ∃ (p : Piece) (r : Bytes), s = p.spell ++ r ∧ IsText r := by
  cases s with
  | nil => rw [skipString.eq_def] at h; cases h
  | cons b r =>
    by_cases hquote : b = 0x22
    · subst hquote
      rw [skipString.eq_def] at h
      cases h
      exact Or.inl rfl
    by_cases hslash : b = 0x5C
    · subst hslash
      exact Or.inr (exists_escape (hs.of_cons (by decide)) h)
    by_cases hcontrol : b < 0x20
    · rw [skipString.eq_def] at h
      simp [hquote, hslash, hcontrol] at h
    · obtain ⟨c, t, hc, ht, hspell⟩ := hs.exists_char hquote hslash hcontrol
      exact Or.inr ⟨.char c hc, t, hspell, ht⟩

theorem Piece.spell_ne_nil (p : Piece) : p.spell ≠ [] := by
  cases p <;> simp [Piece.spell, String.utf8EncodeChar_ne_nil]

theorem exists_quoted {s rest : Bytes} (hs : IsText s) (h : skipString s = .ok rest) :
    ∃ ps, s = quoted ps ++ rest ∧ IsText rest := by
  -- every piece takes at least one byte, so the induction is on what is left
  induction hn : s.length using Nat.strongRecOn generalizing s with
  | ind n ih =>
    rcases exists_piece hs h with rfl | ⟨p, r, rfl, hr⟩
    · exact ⟨[], rfl, hs.of_cons (by decide)⟩
    · have hpos := List.length_pos_iff.mpr p.spell_ne_nil
      rw [List.length_append] at hn
      obtain ⟨ps, rfl, hrest⟩ := ih r.length (by omega) hr ((skipString_spell p r).symm.trans h) rfl
      exact ⟨p :: ps, by simp [quoted], hrest⟩

/-! ## Numbers -/

theorem Digits.ascii {ds : Bytes} (h : Digits ds) : Ascii ds := by
  intro b hb
  have hdigit := h.digits b hb
  simp only [isDigit, Bool.and_eq_true, decide_eq_true_eq] at hdigit
  exact UInt8.lt_of_le_of_lt hdigit.2 (by decide)

theorem Number.ascii {s : Bytes} (h : Number s) : Ascii s := by
  obtain ⟨hsign, hwhole, hfraction, hexponent⟩ := h
  have hsigns : ∀ t ∈ ([[], [0x2B], [0x2D]] : List Bytes), Ascii t := by decide
  refine Ascii.append ?_ (Ascii.append ?_ (Ascii.append ?_ ?_))
  · simp only [List.mem_cons, List.not_mem_nil, or_false] at hsign
    rcases hsign with rfl | rfl <;> decide
  · cases hwhole with
    | zero => decide
    | digits hzero h => exact h.ascii
  · cases hfraction with
    | absent => decide
    | digits h => exact Ascii.append (s := [0x2E]) (by decide) h.ascii
  · cases hexponent with
    | absent => decide
    | @digits mark sign ds hmark hsign h =>
      have hmarked : Ascii [mark] := by rcases hmark with rfl | rfl <;> decide
      exact hmarked.append ((hsigns _ hsign).append h.ascii)

theorem exists_digits {s : Bytes} (h : startsWith isDigit s = true) :
    ∃ ds, Digits ds ∧ s = ds ++ s.dropWhile isDigit := by
  refine ⟨s.takeWhile isDigit, ⟨?_, List.all_eq_true.mp List.all_takeWhile⟩,
    List.takeWhile_append_dropWhile.symm⟩
  cases s with
  | nil => cases h
  | cons b r => rw [List.takeWhile_cons_of_pos (show isDigit b = true from h)]; exact List.cons_ne_nil _ _

theorem exists_exponent {b : UInt8} {r rest : Bytes} (hb : isExponentMark b = true)
    (h : skipExponent r = .ok rest) : ∃ e, Exponent e ∧ b :: r = e ++ rest := by
  have hmark : b = 0x65 ∨ b = 0x45 := by simpa [isExponentMark] using hb
  obtain ⟨sign, s, hsign, rfl, hskip⟩ : ∃ sign s, sign ∈ ([[], [0x2B], [0x2D]] : List Bytes) ∧
      r = sign ++ s ∧
      (if startsWith isDigit s then .ok (s.dropWhile isDigit) else .error (.grammar .invalidNumber)) =
        (.ok rest : Except Error Bytes) := by
    cases r with
    | nil => exact ⟨[], [], by decide, rfl, h⟩
    | cons c r =>
      by_cases hc : c = 0x2B ∨ c = 0x2D
      · have hif : (c = 0x2B || c = 0x2D) = true := by simpa using hc
        simp only [skipExponent, hif, if_true] at h
        exact ⟨[c], r, by rcases hc with rfl | rfl <;> decide, rfl, h⟩
      · have hif : ¬(c = 0x2B || c = 0x2D) = true := by simpa using hc
        simp only [skipExponent, hif] at h
        exact ⟨[], c :: r, by decide, rfl, h⟩
  split at hskip
  · next hdigit =>
    obtain ⟨ds, hds, hs⟩ := exists_digits hdigit
    cases hskip
    refine ⟨b :: (sign ++ ds), .digits hmark hsign hds, ?_⟩
    rw [List.cons_append, List.append_assoc, ← hs]
  · cases hskip

theorem exists_after_digits {s rest : Bytes}
    (h : (match s with
      | b :: r => if isExponentMark b then skipExponent r else .ok (b :: r)
      | [] => .ok []) = (.ok rest : Except Error Bytes)) : ∃ e, Exponent e ∧ s = e ++ rest := by
  cases s with
  | nil => cases h; exact ⟨[], .absent, rfl⟩
  | cons b r =>
    dsimp only at h
    split at h
    · next hmark => exact exists_exponent hmark h
    · cases h; exact ⟨[], .absent, rfl⟩

theorem exists_after_whole {s rest : Bytes} (h : skipAfterWhole s = .ok rest) :
    ∃ f e, Fraction f ∧ Exponent e ∧ s = f ++ (e ++ rest) := by
  cases s with
  | nil => cases h; exact ⟨[], [], .absent, .absent, rfl⟩
  | cons b r =>
    rw [skipAfterWhole] at h
    split at h
    · next hdot =>
      obtain rfl : b = 0x2E := by simpa [isDot] using hdot
      rw [skipFraction] at h
      split at h
      · next hdigit =>
        obtain ⟨ds, hds, hs⟩ := exists_digits hdigit
        obtain ⟨e, he, hrest⟩ := exists_after_digits h
        exact ⟨0x2E :: ds, e, .digits hds, he, by rw [List.cons_append, ← hrest, ← hs]⟩
      · cases h
    · obtain ⟨e, he, hrest⟩ := exists_after_digits (s := b :: r) h
      exact ⟨[], e, .absent, he, hrest⟩

theorem exists_number {s rest : Bytes} (h : skipNumber s = .ok rest) :
    ∃ w f e, Whole w ∧ Fraction f ∧ Exponent e ∧ s = w ++ (f ++ (e ++ rest)) := by
  cases s with
  | nil => cases h
  | cons b r =>
    rw [skipNumber] at h
    split at h
    · next hzero =>
      split at h
      · cases h
      · obtain ⟨f, e, hf, he, hs⟩ := exists_after_whole h
        exact ⟨[0x30], f, e, .zero, hf, he, by rw [hzero, hs]; rfl⟩
    · next hzero =>
      split at h
      · next hdigit =>
        obtain ⟨f, e, hf, he, hs⟩ := exists_after_whole h
        have hdigits : Digits (b :: r.takeWhile isDigit) :=
          ⟨List.cons_ne_nil _ _, List.forall_mem_cons.mpr
            ⟨hdigit, List.all_eq_true.mp List.all_takeWhile⟩⟩
        refine ⟨_, f, e, .digits hzero hdigits, hf, he, ?_⟩
        rw [List.cons_append, ← hs, List.takeWhile_append_dropWhile]
      · cases h

/-! ## Values -/

/-- A value stands behind blanks, and this follows it. -/
def HasValue (s rest : Bytes) : Prop :=
  ∃ w v t, Blank w ∧ Spells (.value v) t ∧ s = w ++ (t ++ rest)

def HasItems (first : Bool) (s rest : Bytes) : Prop :=
  ∃ vs t, Spells (.items first vs) t ∧ s = t ++ rest

def HasEntries (first : Bool) (s rest : Bytes) : Prop :=
  ∃ es t, Spells (.entries first es) t ∧ s = t ++ rest

/-- The value of a key, behind the key. -/
def HasAssigned (s rest : Bytes) : Prop :=
  ∃ w s', Blank w ∧ s = w ++ 0x3A :: s' ∧ HasValue s' rest

variable {s s' w g rest : Bytes} {first : Bool}

theorem HasValue.blank (h : HasValue s rest) (hw : Blank w) : HasValue (w ++ s) rest := by
  obtain ⟨w', v, t, hw', hv, rfl⟩ := h
  exact ⟨w ++ w', v, t, hw.append hw', hv, by rw [List.append_assoc]⟩

theorem HasValue.of_spells {v : Value} {t : Bytes} (h : Spells (.value v) t) :
    HasValue (t ++ rest) rest :=
  ⟨[], v, t, by decide, h, rfl⟩

theorem HasValue.array (h : HasItems true s rest) : HasValue (0x5B :: s) rest := by
  obtain ⟨vs, t, hvs, rfl⟩ := h
  exact .of_spells (.array hvs)

theorem HasValue.object (h : HasEntries true s rest) : HasValue (0x7B :: s) rest := by
  obtain ⟨es, t, hes, rfl⟩ := h
  exact .of_spells (.object hes)

theorem Gap.blank (h : Gap first g) (hw : Blank w) : Gap first (g ++ w) := by
  cases h with
  | first hg => exact .first (hg.append hw)
  | next hg hg' =>
    rw [List.append_assoc, List.cons_append]
    exact .next hg (hg'.append hw)

theorem HasItems.nil (hw : Blank w) : HasItems first (w ++ 0x5D :: rest) rest :=
  ⟨[], w ++ [0x5D], .noItem hw, by simp⟩

theorem HasItems.cons (hg : Gap first g) (hv : HasValue s s') (h : HasItems false s' rest) :
    HasItems first (g ++ s) rest := by
  obtain ⟨w, v, t, hw, hv, rfl⟩ := hv
  obtain ⟨vs, t', hvs, rfl⟩ := h
  exact ⟨v :: vs, _, .item (hg.blank hw) hv hvs, by simp only [List.append_assoc]⟩

theorem HasEntries.nil (hw : Blank w) : HasEntries first (w ++ 0x7D :: rest) rest :=
  ⟨[], w ++ [0x7D], .noEntry hw, by simp⟩

theorem HasEntries.cons (hg : Gap first g) (ps : List Piece) (hv : HasAssigned s s')
    (h : HasEntries false s' rest) : HasEntries first (g ++ 0x22 :: (quoted ps ++ s)) rest := by
  obtain ⟨w, s'', hw, rfl, w', v, t, hw', hv, rfl⟩ := hv
  obtain ⟨es, t', hes, rfl⟩ := h
  exact ⟨(text? ps, v) :: es, _, .entry hg ps rfl hw hw' hv hes,
    by simp only [List.append_assoc, List.cons_append]⟩

/-! ## Values that are passed over -/

theorem expectTail_eq_ok {ws : Bytes} (h : expectTail ws s = .ok rest) : s = ws ++ rest := by
  induction ws generalizing s with
  | nil => cases h; rfl
  | cons w ws ih =>
    cases s with
    | nil => cases h
    | cons b r =>
      rw [expectTail] at h
      split at h
      · next hb => rw [hb, ih h]; rfl
      · cases h

theorem exists_colon (h : colon s = .ok rest) : ∃ w, Blank w ∧ s = w ++ 0x3A :: rest := by
  unfold colon at h
  split at h
  · cases h
  · next hs =>
    split at h
    · next hb =>
      cases h
      exact hb ▸ exists_blank_cons hs
    · cases h

/-- What is left to follow inside of the open brackets, the innermost first. -/
def Closes : List Bracket → Bytes → Bytes → Prop
  | [], s, rest => s = rest
  | .list :: outer, s, rest => ∃ s', HasItems false s s' ∧ Closes outer s' rest
  | .object :: outer, s, rest => ∃ s', HasEntries false s s' ∧ Closes outer s' rest

/-- What stands before what is left to follow. -/
def Skip.Before : Skip → Bytes → Bytes → Prop
  | .atValue, s, s' => HasValue s s'
  | .atKey, s, s' => ∃ w ps s'', Blank w ∧ s = w ++ 0x22 :: (quoted ps ++ s'') ∧ HasAssigned s'' s'
  | .after, s, s' => s = s'

def Skip.Takes (turn : Skip) (outer : List Bracket) (s rest : Bytes) : Prop :=
  (∃ s', turn.Before s s' ∧ Closes outer s' rest) ∧ IsText rest

/-- With this bound every turn takes what it stands before. -/
def Passing (bound rest : Bytes) : Prop :=
  ∀ ⦃turn : Skip⦄ ⦃outer : List Bracket⦄ ⦃s : Bytes⦄, IsText s →
    skipFrom bound turn outer s = .ok rest → turn.Takes outer s rest

section

variable {bound tail r : Bytes} {outer : List Bracket} {b c : UInt8} {read : Except Error Bytes}

theorem takes_value (h : HasValue s s') (hafter : Skip.after.Takes outer s' rest) :
    Skip.atValue.Takes outer s rest := by
  obtain ⟨⟨_, rfl, hc⟩, hrest⟩ := hafter
  exact ⟨⟨_, h, hc⟩, hrest⟩

/-- A value without parts, and then what follows it. -/
theorem Passing.scalar (hp : Passing bound rest)
    (hv : ∀ r', read = .ok r' → HasValue s r' ∧ IsText r')
    (h : (match read with
      | .error e => Except.error e
      | .ok r => skipFrom bound .after outer r) = .ok rest) : Skip.atValue.Takes outer s rest := by
  cases hread : read with
  | error e => rw [hread] at h; cases h
  | ok r' =>
    rw [hread] at h
    obtain ⟨hvalue, hr⟩ := hv r' hread
    exact takes_value hvalue (hp hr h)

theorem hasValue_word {v : Value} (hv : Spells (.value v) (b :: tail)) (ht : Ascii (b :: tail))
    (hs : IsText (b :: r)) (h : expectTail tail r = .ok s') : HasValue (b :: r) s' ∧ IsText s' := by
  obtain rfl := expectTail_eq_ok h
  exact ⟨.of_spells hv, hs.of_append (w := b :: tail) ht⟩

theorem hasValue_number (sign : Bytes) (hsign : sign ∈ ([[], [0x2D]] : List Bytes))
    (hs : IsText (sign ++ s)) (h : skipNumber s = .ok s') : HasValue (sign ++ s) s' ∧ IsText s' := by
  obtain ⟨w, f, e, hw, hf, he, rfl⟩ := exists_number h
  have hn := Number.mk hsign hw hf he
  have hspell : sign ++ (w ++ (f ++ (e ++ s'))) = (sign ++ (w ++ (f ++ e))) ++ s' := by
    simp only [List.append_assoc]
  rw [hspell] at hs ⊢
  exact ⟨.of_spells (.number hn), hs.of_append hn.ascii⟩

theorem hasValue_string (hs : IsText (0x22 :: r)) (h : skipString r = .ok s') :
    HasValue (0x22 :: r) s' ∧ IsText s' := by
  obtain ⟨ps, rfl, hrest⟩ := exists_quoted (hs.of_cons (by decide)) h
  exact ⟨.of_spells (.string ps rfl), hrest⟩

theorem Passing.openList (hp : Passing bound rest) (hs : IsText (0x5B :: r))
    (h : (match skipBlank r with
      | [] => Except.error (Error.ended .list)
      | c :: r =>
        if c = 0x5D then skipFrom bound .after outer r
        else skipFrom bound .atValue (.list :: outer) (c :: r)) = .ok rest) :
    Skip.atValue.Takes outer (0x5B :: r) rest := by
  cases hc : skipBlank r with
  | nil => rw [hc] at h; cases h
  | cons c r' =>
    obtain ⟨w, hw, rfl⟩ := exists_blank_cons hc
    have hr := (hs.of_cons (by decide)).of_append hw.ascii
    rw [hc] at h
    dsimp only at h
    split at h
    · next hclose =>
      subst hclose
      exact takes_value (.array (.nil hw)) (hp (hr.of_cons (by decide)) h)
    · obtain ⟨⟨s', hv, s'', hvs, hcloses⟩, hrest⟩ := hp hr h
      exact ⟨⟨s'', .array (.cons (.first hw) hv hvs), hcloses⟩, hrest⟩

theorem Passing.openObject (hp : Passing bound rest) (hs : IsText (0x7B :: r))
    (h : (match skipBlank r with
      | [] => Except.error (Error.ended .object)
      | c :: r =>
        if c = 0x7D then skipFrom bound .after outer r
        else skipFrom bound .atKey (.object :: outer) (c :: r)) = .ok rest) :
    Skip.atValue.Takes outer (0x7B :: r) rest := by
  cases hc : skipBlank r with
  | nil => rw [hc] at h; cases h
  | cons c r' =>
    obtain ⟨w, hw, rfl⟩ := exists_blank_cons hc
    have hr := (hs.of_cons (by decide)).of_append hw.ascii
    rw [hc] at h
    dsimp only at h
    split at h
    · next hclose =>
      subst hclose
      exact takes_value (.object (.nil hw)) (hp (hr.of_cons (by decide)) h)
    · obtain ⟨⟨s', ⟨w', ps, _, hw', hkey, hv⟩, s'', hes, hcloses⟩, hrest⟩ := hp hr h
      refine ⟨⟨s'', .object ?_, hcloses⟩, hrest⟩
      rw [hkey, ← List.append_assoc]
      exact .cons ((Gap.first hw).blank hw') ps hv hes

theorem Passing.value (hp : Passing bound rest) (hs : IsText s)
    (h : skipFrom (c :: bound) .atValue outer s = .ok rest) : Skip.atValue.Takes outer s rest := by
  rw [skipFrom] at h
  cases hb : skipBlank s with
  | nil => rw [hb] at h; cases h
  | cons b r =>
    rw [hb] at h
    obtain ⟨w, hw, rfl⟩ := exists_blank_cons hb
    have hbr := hs.of_append hw.ascii
    suffices hvalue : Skip.atValue.Takes outer (b :: r) rest by
      obtain ⟨⟨s', hv, hcloses⟩, hrest⟩ := hvalue
      exact ⟨⟨s', HasValue.blank hv hw, hcloses⟩, hrest⟩
    dsimp only at h
    split at h
    · next hfirst =>
      subst hfirst
      exact hp.scalar (fun _ => hasValue_word .null (by decide) hbr) h
    split at h
    · next hfirst =>
      subst hfirst
      exact hp.scalar (fun _ => hasValue_word .yes (by decide) hbr) h
    split at h
    · next hfirst =>
      subst hfirst
      exact hp.scalar (fun _ => hasValue_word .no (by decide) hbr) h
    split at h
    · next hfirst =>
      subst hfirst
      exact hp.scalar (fun _ => hasValue_number [0x2D] (by decide) hbr) h
    split at h
    · exact hp.scalar (fun _ => hasValue_number [] (by decide) hbr) h
    split at h
    · next hfirst =>
      subst hfirst
      exact hp.scalar (fun _ => hasValue_string hbr) h
    split at h
    · next hfirst =>
      subst hfirst
      exact hp.openList hbr h
    split at h
    · next hfirst =>
      subst hfirst
      exact hp.openObject hbr h
    · cases h

theorem Passing.key (hp : Passing bound rest) (hs : IsText s)
    (h : skipFrom (c :: bound) .atKey outer s = .ok rest) : Skip.atKey.Takes outer s rest := by
  rw [skipFrom] at h
  cases hb : skipBlank s with
  | nil => rw [hb] at h; cases h
  | cons b r =>
    rw [hb] at h
    obtain ⟨w, hw, rfl⟩ := exists_blank_cons hb
    dsimp only at h
    split at h
    · next hquote =>
      subst hquote
      split at h
      · cases h
      · next hstring =>
        obtain ⟨ps, rfl, hr⟩ := exists_quoted (hs.of_blank_cons hw (by decide)) hstring
        split at h
        · cases h
        · next hcolon =>
          obtain ⟨w', hw', rfl⟩ := exists_colon hcolon
          obtain ⟨⟨s', hv, hcloses⟩, hrest⟩ := hp (hr.of_blank_cons hw' (by decide)) h
          exact ⟨⟨s', ⟨w, ps, _, hw, rfl, w', _, hw', rfl, hv⟩, hcloses⟩, hrest⟩
    · cases h

theorem Passing.afterItem (hp : Passing bound rest) (hs : IsText s)
    (h : skipFrom (c :: bound) .after (.list :: outer) s = .ok rest) :
    Skip.after.Takes (.list :: outer) s rest := by
  rw [skipFrom] at h
  cases hb : skipBlank s with
  | nil => rw [hb] at h; cases h
  | cons b r =>
    rw [hb] at h
    obtain ⟨w, hw, rfl⟩ := exists_blank_cons hb
    have hbr := hs.of_append hw.ascii
    dsimp only at h
    split at h
    · next hcomma =>
      subst hcomma
      obtain ⟨⟨s', hv, s'', hvs, hcloses⟩, hrest⟩ := hp (hbr.of_cons (by decide)) h
      have hnone : Blank [] := List.forall_mem_nil _
      have hitems := HasItems.cons (Gap.next hw hnone) hv hvs
      rw [List.append_assoc, List.singleton_append] at hitems
      exact ⟨⟨_, rfl, s'', hitems, hcloses⟩, hrest⟩
    split at h
    · next hclose =>
      subst hclose
      obtain ⟨⟨_, rfl, hcloses⟩, hrest⟩ := hp (hbr.of_cons (by decide)) h
      exact ⟨⟨_, rfl, _, .nil hw, hcloses⟩, hrest⟩
    · cases h

theorem Passing.afterEntry (hp : Passing bound rest) (hs : IsText s)
    (h : skipFrom (c :: bound) .after (.object :: outer) s = .ok rest) :
    Skip.after.Takes (.object :: outer) s rest := by
  rw [skipFrom] at h
  cases hb : skipBlank s with
  | nil => rw [hb] at h; cases h
  | cons b r =>
    rw [hb] at h
    obtain ⟨w, hw, rfl⟩ := exists_blank_cons hb
    have hbr := hs.of_append hw.ascii
    dsimp only at h
    split at h
    · next hcomma =>
      subst hcomma
      obtain ⟨⟨s', ⟨w', ps, _, hw', rfl, hv⟩, s'', hes, hcloses⟩, hrest⟩ :=
        hp (hbr.of_cons (by decide)) h
      have hentries := HasEntries.cons (Gap.next hw hw') ps hv hes
      rw [List.append_assoc, List.cons_append] at hentries
      exact ⟨⟨_, rfl, s'', hentries, hcloses⟩, hrest⟩
    split at h
    · next hclose =>
      subst hclose
      obtain ⟨⟨_, rfl, hcloses⟩, hrest⟩ := hp (hbr.of_cons (by decide)) h
      exact ⟨⟨_, rfl, _, .nil hw, hcloses⟩, hrest⟩
    · cases h

end

theorem passing (bound rest : Bytes) : Passing bound rest := by
  -- a turn uses up one byte of the bound, whatever it takes of the text
  induction bound with
  | nil =>
    intro turn outer s hs h
    rw [skipFrom_nil] at h
    cases h
  | cons c bound ih =>
    intro turn outer s hs h
    cases turn with
    | atValue => exact ih.value hs h
    | atKey => exact ih.key hs h
    | after =>
      cases outer with
      | nil =>
        rw [skipFrom] at h
        cases h
        exact ⟨⟨_, rfl, rfl⟩, hs⟩
      | cons bracket outer =>
        cases bracket with
        | list => exact ih.afterItem hs h
        | object => exact ih.afterEntry hs h

theorem hasValue_of_skipValue (hs : IsText s) (h : skipValue s = .ok rest) :
    HasValue s rest ∧ IsText rest := by
  obtain ⟨⟨_, hv, rfl⟩, hrest⟩ := passing _ rest hs h
  exact ⟨hv, hrest⟩

end Json

end ClassListing
