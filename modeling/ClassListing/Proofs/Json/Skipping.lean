import ClassListing.Proofs.Json.Grammar
import ClassListing.Proofs.Json.Reading

/-!
# Values that are passed over

The value of an unknown key may be of any kind and depth. Passing over it takes its text and nothing
more, and never more turns than its text has bytes.
-/

namespace ClassListing

set_option autoImplicit false

namespace Json

/-! ## Strings -/

theorem skipString_plain {bs : Bytes} (h : ∀ b ∈ bs, isPlain b = true) (rest : Bytes) :
    skipString (bs ++ rest) = skipString rest := by
  induction bs with
  | nil => rfl
  | cons b bs ih =>
    have hb := h b List.mem_cons_self
    simp only [isPlain, Bool.and_eq_true, decide_eq_true_eq] at hb
    obtain ⟨⟨hquote, hslash⟩, hcontrol⟩ := hb
    rw [List.cons_append, skipString.eq_def]
    simp only [hquote, hslash, UInt8.not_lt.mpr hcontrol, if_false]
    exact ih fun c hc => h c (List.mem_cons_of_mem _ hc)

/-- The letter of a short escape is one byte, and the reader knows the byte of its character. -/
theorem simpleEscape?_letter : ∀ p ∈ shortEscapes, ∃ e c, String.utf8EncodeChar p.1 = [e] ∧
    String.utf8EncodeChar p.2 = [c] ∧ e ≠ 0x75 ∧ simpleEscape? e = some c := by
  have hletter : ∀ p ∈ shortEscapes,
      String.utf8EncodeChar p.1 = [UInt8.ofNat p.1.toNat] ∧
        String.utf8EncodeChar p.2 = [UInt8.ofNat p.2.toNat] ∧ UInt8.ofNat p.1.toNat ≠ 0x75 ∧
        simpleEscape? (UInt8.ofNat p.1.toNat) = some (UInt8.ofNat p.2.toNat) := by
    decide
  exact fun p hp => ⟨_, _, hletter p hp⟩

theorem skipString_spell (p : Piece) (s : Bytes) : skipString (p.spell ++ s) = skipString s := by
  cases p with
  | char c h =>
    exact skipString_plain (isPlain_of_mem_utf8EncodeChar h.1 h.2.1 h.2.2) s
  | short letter c h =>
    obtain ⟨e, d, he, -, hunit, hescape⟩ := simpleEscape?_letter _ h
    rw [Piece.spell, he, skipString.eq_def]
    simp [hunit, hescape]
  | unit d₁ d₂ d₃ d₄ n h =>
    rw [Piece.spell, skipString.eq_def]
    simp [h]

theorem skipString_quoted (ps : List Piece) (rest : Bytes) :
    skipString (quoted ps ++ rest) = .ok rest := by
  induction ps with
  | nil =>
    rw [quoted, List.flatMap_nil, List.nil_append, skipString.eq_def]
    simp
  | cons p ps ih =>
    rw [quoted, List.flatMap_cons, List.append_assoc, List.append_assoc, skipString_spell,
      ← List.append_assoc]
    exact ih

/-! ## Numbers -/

theorem Digits.startsWith {ds : Bytes} (h : Digits ds) (rest : Bytes) :
    startsWith isDigit (ds ++ rest) = true := by
  obtain ⟨hne, hdigits⟩ := h
  cases ds with
  | nil => exact absurd rfl hne
  | cons d ds => exact hdigits d List.mem_cons_self

theorem dropWhile_digits {ds : Bytes} (h : ∀ b ∈ ds, isDigit b = true) {s : Bytes}
    (hs : startsWith isDigit s = false) : (ds ++ s).dropWhile isDigit = s := by
  rw [List.dropWhile_append_of_pos h]
  cases s with
  | nil => rfl
  | cons b s => exact List.dropWhile_cons_of_neg (by simpa [startsWith] using hs)

theorem Ends.startsWith {rest : Bytes} (h : Ends rest) : startsWith isDigit rest = false := by
  cases rest with
  | nil => rfl
  | cons b rest => exact (h b rfl).1

theorem skipExponent_digits {sign ds rest : Bytes} (hsign : sign ∈ [[], [0x2B], [0x2D]])
    (h : Digits ds) (hrest : Ends rest) : skipExponent (sign ++ (ds ++ rest)) = .ok rest := by
  have hdrop := dropWhile_digits h.digits hrest.startsWith
  have hstart := h.startsWith rest
  simp only [List.mem_cons, List.not_mem_nil, or_false] at hsign
  rcases hsign with rfl | rfl | rfl
  · obtain ⟨d, ds, rfl⟩ := List.exists_cons_of_ne_nil h.nonempty
    have hd : isDigit d = true := h.digits d List.mem_cons_self
    have hplus : d ≠ 0x2B := by rintro rfl; cases hd
    have hminus : d ≠ 0x2D := by rintro rfl; cases hd
    rw [List.cons_append] at hdrop hstart
    simp [skipExponent, hplus, hminus, hstart, hdrop]
  · simp [skipExponent, hstart, hdrop]
  · simp [skipExponent, hstart, hdrop]

/-- What is left after the digits of a fraction, or after those before its point. -/
theorem skip_exponent {e rest : Bytes} (h : Exponent e) (hrest : Ends rest) :
    startsWith isDigit (e ++ rest) = false ∧ startsWith isDot (e ++ rest) = false ∧
      (match e ++ rest with
        | b :: r => if isExponentMark b then skipExponent r else .ok (b :: r)
        | [] => .ok []) = (.ok rest : Except Error Bytes) := by
  cases h with
  | absent =>
    cases rest with
    | nil => exact ⟨rfl, rfl, rfl⟩
    | cons b rest =>
      obtain ⟨hdigit, hdot, hmark⟩ := hrest b rfl
      exact ⟨hdigit, hdot, by simp [hmark]⟩
  | @digits mark sign ds hmark hsign h =>
    have hskip := skipExponent_digits hsign h hrest
    rcases hmark with rfl | rfl
    · exact ⟨rfl, rfl, by simpa [isExponentMark] using hskip⟩
    · exact ⟨rfl, rfl, by simpa [isExponentMark] using hskip⟩

theorem skipFraction_digits {ds e rest : Bytes} (h : Digits ds) (he : Exponent e) (hrest : Ends rest) :
    skipFraction (ds ++ (e ++ rest)) = .ok rest := by
  obtain ⟨hdigit, -, hskip⟩ := skip_exponent he hrest
  rw [skipFraction, h.startsWith, dropWhile_digits h.digits hdigit]
  exact hskip

theorem skipAfterWhole_append {f e rest : Bytes} (hf : Fraction f) (he : Exponent e)
    (hrest : Ends rest) :
    startsWith isDigit (f ++ (e ++ rest)) = false ∧
      skipAfterWhole (f ++ (e ++ rest)) = .ok rest := by
  cases hf with
  | absent =>
    obtain ⟨hdigit, hdot, hskip⟩ := skip_exponent he hrest
    refine ⟨hdigit, ?_⟩
    rw [List.nil_append]
    cases hs : e ++ rest with
    | nil => simpa [skipAfterWhole, hs] using hskip
    | cons b r =>
      have hb : isDot b = false := by simpa [hs, startsWith] using hdot
      simpa [skipAfterWhole, hs, hb] using hskip
  | digits h =>
    refine ⟨rfl, ?_⟩
    rw [List.cons_append, skipAfterWhole, skipFraction_digits h he hrest]
    rfl

theorem skipNumber_append {w f e rest : Bytes} (hw : Whole w) (hf : Fraction f) (he : Exponent e)
    (hrest : Ends rest) : skipNumber (w ++ (f ++ (e ++ rest))) = .ok rest := by
  obtain ⟨hdigit, hskip⟩ := skipAfterWhole_append hf he hrest
  cases hw with
  | zero => simp [skipNumber, hdigit, hskip]
  | @digits d ds hzero h =>
    have hd : isDigit d = true := h.digits d List.mem_cons_self
    have hdrop := dropWhile_digits (fun b hb => h.digits b (List.mem_cons_of_mem _ hb)) hdigit
    simp [skipNumber, hzero, hd, hdrop, hskip]

/-! ## Values -/

theorem skipFrom_blank {w : Bytes} (hw : Blank w) (bound : Bytes) (outer : List Bracket) (s : Bytes) :
    skipFrom bound .atValue outer (w ++ s) = skipFrom bound .atValue outer s := by
  cases bound with
  | nil => rw [skipFrom_nil, skipFrom_nil]
  | cons c bound => simp only [skipFrom, skipBlank_append hw]

theorem colon_append {w : Bytes} (hw : Blank w) (s : Bytes) : colon (w ++ 0x3A :: s) = .ok s := by
  rw [colon, skipBlank_append hw, skipBlank_cons rfl]
  rfl

theorem skipFrom_key {w₀ w w' : Bytes} (hw₀ : Blank w₀) (hw : Blank w) (hw' : Blank w') (ps : List Piece)
    (c : UInt8) (bound : Bytes) (outer : List Bracket) (s : Bytes) :
    skipFrom (c :: bound) .atKey outer (w₀ ++ 0x22 :: (quoted ps ++ (w ++ 0x3A :: (w' ++ s)))) =
      skipFrom bound .atValue outer s := by
  rw [skipFrom, skipBlank_append hw₀, skipBlank_cons rfl]
  simp only [if_true, skipString_quoted, colon_append hw]
  exact skipFrom_blank hw' bound outer s

theorem skipFrom_number {s rest : Bytes} (h : Number s) (hrest : Ends rest) (c : UInt8) (bound : Bytes)
    (outer : List Bracket) :
    skipFrom (c :: bound) .atValue outer (s ++ rest) = skipFrom bound .after outer rest := by
  obtain ⟨hsign, hwhole, hfraction, hexponent⟩ := h
  have hskip := skipNumber_append hwhole hfraction hexponent hrest
  simp only [List.mem_cons, List.not_mem_nil, or_false] at hsign
  simp only [List.append_assoc]
  rcases hsign with rfl | rfl
  · obtain ⟨b, r, rfl, hdigit⟩ := hwhole.opens
    have hne : ∀ a : UInt8, isDigit a = false → b ≠ a := by
      rintro a ha rfl
      rw [ha] at hdigit
      cases hdigit
    have hblank : isBlank b = false := by
      simp [isBlank, hne 0x20 rfl, hne 0x0A rfl, hne 0x09 rfl, hne 0x0D rfl]
    rw [List.cons_append] at hskip
    rw [List.nil_append, List.cons_append, skipFrom, skipBlank_cons hblank]
    simp [hne 0x6E rfl, hne 0x74 rfl, hne 0x66 rfl, hne 0x2D rfl, hdigit, hskip]
  · rw [List.cons_append, List.nil_append, skipFrom, skipBlank_cons rfl]
    simp [hskip]

/-- How a part is passed over inside of the brackets that are open around it. After an opening
bracket it is seen at once whether there is a first element. -/
def Part.skip (bound : Bytes) (outer : List Bracket) : Part → Bytes → Except Error Bytes
  | .value _, s => skipFrom bound .atValue outer s
  | .items true _, s =>
    match skipBlank s with
    | [] => .error (.ended .list)
    | c :: r =>
      if c = 0x5D then skipFrom bound .after outer r
      else skipFrom bound .atValue (.list :: outer) (c :: r)
  | .items false _, s => skipFrom bound .after (.list :: outer) s
  | .entries true _, s =>
    match skipBlank s with
    | [] => .error (.ended .object)
    | c :: r =>
      if c = 0x7D then skipFrom bound .after outer r
      else skipFrom bound .atKey (.object :: outer) (c :: r)
  | .entries false _, s => skipFrom bound .after (.object :: outer) s

/-- A part is passed over with no more turns than its text has bytes. What is left of the bound goes to
what follows. -/
def Part.Passes (part : Part) (outer : List Bracket) (t rest : Bytes) : Prop :=
  ∃ n ≤ t.length, ∀ bound : Bytes, n < bound.length →
    part.skip bound outer (t ++ rest) = skipFrom (bound.drop n) .after outer rest

/-- A turn takes one byte of the bound. -/
theorem skip_turn {skip : Bytes → Except Error Bytes} {outer : List Bracket} {rest : Bytes} {n : Nat}
    (h : ∀ c (bound : Bytes), n < bound.length →
      skip (c :: bound) = skipFrom (bound.drop n) .after outer rest) :
    ∀ bound : Bytes, n + 1 < bound.length →
      skip bound = skipFrom (bound.drop (n + 1)) .after outer rest := by
  intro bound hbound
  obtain ⟨c, bound, rfl⟩ := List.exists_cons_of_length_pos (Nat.zero_lt_of_lt hbound)
  exact h c bound (by simpa using hbound)

/-- A value without parts is passed over in one turn. -/
theorem passes_scalar {v : Value} {t rest : Bytes} {outer : List Bracket} (ht : t ≠ [])
    (h : ∀ c bound, skipFrom (c :: bound) .atValue outer (t ++ rest) =
      skipFrom bound .after outer rest) : (Part.value v).Passes outer t rest :=
  ⟨1, List.length_pos_iff.mpr ht, skip_turn fun c bound _ => h c bound⟩

theorem passes_noItem {first : Bool} {w : Bytes} (hw : Blank w) (outer : List Bracket) (rest : Bytes) :
    (Part.items first []).Passes outer (w ++ [0x5D]) rest := by
  cases first with
  | true =>
    refine ⟨0, Nat.zero_le _, fun bound _ => ?_⟩
    rw [List.append_assoc, Part.skip, skipBlank_append hw]
    rfl
  | false =>
    refine ⟨1, by simp, skip_turn fun c bound _ => ?_⟩
    rw [List.append_assoc, Part.skip, skipFrom, skipBlank_append hw]
    rfl

theorem passes_noEntry {first : Bool} {w : Bytes} (hw : Blank w) (outer : List Bracket) (rest : Bytes) :
    (Part.entries first []).Passes outer (w ++ [0x7D]) rest := by
  cases first with
  | true =>
    refine ⟨0, Nat.zero_le _, fun bound _ => ?_⟩
    rw [List.append_assoc, Part.skip, skipBlank_append hw]
    rfl
  | false =>
    refine ⟨1, by simp, skip_turn fun c bound _ => ?_⟩
    rw [List.append_assoc, Part.skip, skipFrom, skipBlank_append hw]
    rfl

theorem passes_item {first : Bool} {g s t rest : Bytes} {v : Value} {vs : List Value}
    {outer : List Bracket} (hgap : Gap first g) (hv : Spells (.value v) s)
    (hfirst : (Part.value v).Passes (.list :: outer) s (t ++ rest))
    (hnext : (Part.items false vs).Passes outer t rest) :
    (Part.items first (v :: vs)).Passes outer (g ++ (s ++ t)) rest := by
  obtain ⟨m, hm, hfirst⟩ := hfirst
  obtain ⟨n, hn, hnext⟩ := hnext
  have hboth : ∀ bound : Bytes, m + n < bound.length →
      skipFrom bound .atValue (.list :: outer) (s ++ (t ++ rest)) =
        skipFrom (bound.drop (m + n)) .after outer rest := by
    intro bound hbound
    rw [← List.drop_drop, ← hnext _ (by rw [List.length_drop]; omega)]
    exact hfirst bound (by omega)
  cases hgap with
  | first hw =>
    refine ⟨m + n, by simp only [List.length_append]; omega, fun bound hbound => ?_⟩
    obtain ⟨b, r, rfl, hopens⟩ := hv.opens
    rw [← hboth bound hbound, Part.skip, List.append_assoc, List.append_assoc, skipBlank_append hw,
      List.cons_append, skipBlank_cons (Value.not_isBlank hopens)]
    simp only [Value.ne_of_opens hopens v.not_opens_close, if_false]
  | next hw hw' =>
    refine ⟨m + n + 1, by simp only [List.length_append, List.length_cons]; omega,
      skip_turn fun c bound hbound => ?_⟩
    rw [← hboth bound hbound, Part.skip, List.append_assoc, List.append_assoc, List.append_assoc,
      List.cons_append, skipFrom, skipBlank_append hw, skipBlank_cons rfl]
    exact skipFrom_blank hw' bound _ _

theorem passes_entry {first : Bool} {g w w' s t rest : Bytes} {key : Option String} {v : Value}
    {es : List (Option String × Value)} {outer : List Bracket} (hgap : Gap first g) (ps : List Piece)
    (hw : Blank w) (hw' : Blank w')
    (hfirst : (Part.value v).Passes (.object :: outer) s (t ++ rest))
    (hnext : (Part.entries false es).Passes outer t rest) :
    (Part.entries first ((key, v) :: es)).Passes outer
      (g ++ 0x22 :: (quoted ps ++ (w ++ 0x3A :: (w' ++ (s ++ t))))) rest := by
  obtain ⟨m, hm, hfirst⟩ := hfirst
  obtain ⟨n, hn, hnext⟩ := hnext
  have hboth : ∀ {w₀ : Bytes}, Blank w₀ → ∀ bound : Bytes, m + n + 1 < bound.length →
      skipFrom bound .atKey (.object :: outer)
          (w₀ ++ 0x22 :: (quoted ps ++ (w ++ 0x3A :: (w' ++ (s ++ (t ++ rest)))))) =
        skipFrom (bound.drop (m + n + 1)) .after outer rest := by
    intro w₀ hw₀
    refine skip_turn fun c bound hbound => ?_
    rw [skipFrom_key hw₀ hw hw', ← List.drop_drop, ← hnext _ (by rw [List.length_drop]; omega)]
    exact hfirst bound (by omega)
  have hlength : 1 ≤ (quoted ps).length := by simp [quoted]
  have hnone : Blank [] := by decide
  cases hgap with
  | first hw₀ =>
    refine ⟨m + n + 1, by simp only [List.length_append, List.length_cons]; omega,
      fun bound hbound => ?_⟩
    simp only [List.append_assoc, List.cons_append]
    rw [← hboth hnone bound hbound, Part.skip, skipBlank_append hw₀, skipBlank_cons rfl]
    rfl
  | next hw₀ hw₁ =>
    refine ⟨m + n + 1 + 1, by simp only [List.length_append, List.length_cons]; omega,
      skip_turn fun c bound hbound => ?_⟩
    simp only [List.append_assoc, List.cons_append]
    rw [← hboth hw₁ bound hbound, Part.skip, skipFrom, skipBlank_append hw₀, skipBlank_cons rfl]
    rfl

/-- Every part is passed over, whatever brackets are open around it: by induction on the derivation of its
text. -/
theorem Spells.passes {part : Part} {t : Bytes} (h : Spells part t) (outer : List Bracket) {rest : Bytes}
    (hrest : Ends rest) : part.Passes outer t rest := by
  induction h generalizing outer rest with
  | null =>
    refine passes_scalar (by decide) fun c bound => ?_
    rw [List.cons_append, skipFrom, skipBlank_cons rfl]
    simp [expectTail_append]
  | yes =>
    refine passes_scalar (by decide) fun c bound => ?_
    rw [List.cons_append, skipFrom, skipBlank_cons rfl]
    simp [expectTail_append]
  | no =>
    refine passes_scalar (by decide) fun c bound => ?_
    rw [List.cons_append, skipFrom, skipBlank_cons rfl]
    simp [expectTail_append]
  | number h =>
    obtain ⟨b, r, hs, -⟩ := h.opens
    exact passes_scalar (by simp [hs]) fun c bound => skipFrom_number h hrest c bound outer
  | string ps h =>
    have hdigit : isDigit 0x22 = false := rfl
    refine passes_scalar (by simp) fun c bound => ?_
    rw [List.cons_append, skipFrom, skipBlank_cons rfl]
    simp [skipString_quoted, hdigit]
  | array h ih =>
    obtain ⟨n, hn, hskip⟩ := ih outer hrest
    refine ⟨n + 1, by simpa using hn, skip_turn fun c bound hbound => ?_⟩
    rw [← hskip bound hbound, Part.skip, List.cons_append, skipFrom, skipBlank_cons rfl]
    rfl
  | object h ih =>
    obtain ⟨n, hn, hskip⟩ := ih outer hrest
    refine ⟨n + 1, by simpa using hn, skip_turn fun c bound hbound => ?_⟩
    rw [← hskip bound hbound, Part.skip, List.cons_append, skipFrom, skipBlank_cons rfl]
    rfl
  | noItem hw => exact passes_noItem hw outer rest
  | noEntry hw => exact passes_noEntry hw outer rest
  | item hgap hv hvs ihv ihvs =>
    exact passes_item hgap hv (ihv _ (hvs.items_ends rest)) (ihvs outer hrest)
  | entry hgap ps hkey hw hw' hv hes ihv ihes =>
    exact passes_entry hgap ps hw hw' (ihv _ (hes.entries_ends rest)) (ihes outer hrest)

theorem skipValue_append {v : Value} {w t rest : Bytes} (h : Spells (.value v) t) (hw : Blank w)
    (hrest : Ends rest) : skipValue (w ++ (t ++ rest)) = .ok rest := by
  obtain ⟨n, hn, hskip⟩ := h.passes [] hrest
  have hlength : n < (0 :: (w ++ (t ++ rest))).length := by
    simp only [List.length_cons, List.length_append]
    omega
  have hleft : 0 < ((0 :: (w ++ (t ++ rest))).drop n).length := by
    rw [List.length_drop]
    omega
  obtain ⟨c, bound, hbound⟩ := List.exists_cons_of_length_pos hleft
  rw [skipValue, skipFrom_blank hw]
  refine (hskip _ hlength).trans ?_
  rw [hbound, skipFrom]

end Json

end ClassListing
