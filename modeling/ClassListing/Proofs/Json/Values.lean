import Mathlib.Data.List.Forall2
import ClassListing.Proofs.Json.Skipping

/-!
# Readers that understand values

A reader understands values if what it gives depends on the value alone, and on nothing in the text of
the value. It takes this text and leaves what follows. Readers of strings, truth values, lists and objects
understand values if those of their parts do.
-/

namespace ClassListing

set_option autoImplicit false

namespace Json

variable {α β : Type}

/-- The reader gives what the value means, whatever its text is, and fails if it means nothing. -/
def Understands (reader : Reader α) (meaning : Value → Option α) : Prop :=
  ∀ ⦃v : Value⦄ ⦃t : Bytes⦄, Spells (.value v) t → ∀ ⦃w rest : Bytes⦄, Blank w → Ends rest →
    (reader (w ++ (t ++ rest))).toOption = (meaning v).map (·, rest)

theorem exists_error {r : Except Error α} (h : r.toOption = none) : ∃ e, r = .error e := by
  cases r with
  | error e => exact ⟨e, rfl⟩
  | ok x => cases h

theorem eq_ok {σ : Type} {r : Except σ α} {x : α} (h : r.toOption = some x) : r = .ok x := by
  cases r with
  | error e => cases h
  | ok y => exact congrArg Except.ok (Option.some.inj h)

theorem toOption_map (f : α → β) (r : Except Error α) : (r.map f).toOption = r.toOption.map f := by
  cases r <;> rfl

theorem Understands.whole {reader : Reader α} {meaning : Value → Option α} (h : Understands reader meaning)
    {v : Value} {text : Bytes} (ht : v.HasText text) : (whole reader text).toOption = meaning v := by
  obtain ⟨hbefore, hv, hafter⟩ := ht
  have hread := h hv hbefore (ends_blank hafter)
  cases hm : meaning v with
  | none =>
    rw [hm] at hread
    obtain ⟨e, he⟩ := exists_error hread
    rw [Json.whole, he]
    rfl
  | some x =>
    rw [hm] at hread
    rw [Json.whole, eq_ok hread]
    simp [skipBlank_eq_nil hafter, Except.toOption]

/-! ## Strings -/

/-- Pieces that do not begin with an escape for a unit cannot complete a pair. -/
theorem stringBytes_unpaired {d₁ d₂ d₃ d₄ : UInt8} {n : Nat} (h : hexUnit? d₁ d₂ d₃ d₄ = some n)
    (hlow : isLowSurrogate n = false) (hhigh : isHighSurrogate n = true) {ps : List Piece}
    (hps : ∀ e₁ e₂ e₃ e₄ m hm qs, ps ≠ .unit e₁ e₂ e₃ e₄ m hm :: qs) (done rest : Bytes) :
    (stringBytes done (0x5C :: 0x75 :: d₁ :: d₂ :: d₃ :: d₄ :: (quoted ps ++ rest))).toOption =
      none := by
  rw [stringBytes.eq_def]
  cases ps with
  | nil => simp [h, hlow, hhigh, quoted, Except.toOption]
  | cons p ps =>
    rw [quoted, List.flatMap_cons]
    cases p with
    | char c hc =>
      obtain ⟨b, bs, hbs⟩ := List.exists_cons_of_ne_nil
        (String.utf8EncodeChar_ne_nil : String.utf8EncodeChar c ≠ [])
      have hplain := isPlain_of_mem_utf8EncodeChar hc.1 hc.2.1 hc.2.2 b (by simp [hbs])
      have hslash : b ≠ 0x5C := by rintro rfl; cases hplain
      simp [h, hlow, hhigh, Piece.spell, hbs, hslash, Except.toOption]
    | short letter c hc =>
      obtain ⟨e, d, he, -, hunit, -⟩ := simpleEscape?_letter _ hc
      simp [h, hlow, hhigh, Piece.spell, he, hunit, Except.toOption]
    | unit e₁ e₂ e₃ e₄ m hm => exact absurd rfl (hps e₁ e₂ e₃ e₄ m hm ps)

theorem stringBytes_quoted (ps : List Piece) (done rest : Bytes) :
    (stringBytes done (quoted ps ++ rest)).toOption =
      (chars? ps).map fun cs => (done.reverse ++ encode cs, rest) := by
  have hspell : ∀ (p : Piece) (qs : List Piece), quoted (p :: qs) ++ rest =
      p.spell ++ (quoted qs ++ rest) := by
    intro p qs
    simp [quoted]
  fun_induction chars? ps generalizing done with
  | case1 =>
    rw [stringBytes.eq_def]
    simp [quoted, Except.toOption]
  | case2 c h ps ih =>
    rw [hspell, Piece.spell, stringBytes_plain (isPlain_of_mem_utf8EncodeChar h.1 h.2.1 h.2.2), ih]
    simp [Function.comp_def, encode_cons]
  | case3 letter c h ps ih =>
    obtain ⟨e, d, he, hd, hunit, hescape⟩ := simpleEscape?_letter _ h
    rw [hspell, Piece.spell, he]
    simp only [List.cons_append, List.nil_append]
    rw [stringBytes_simple hunit hescape, ih]
    simp [Function.comp_def, encode_cons, hd]
  | case4 d₁ d₂ d₃ d₄ n h ps hlow =>
    rw [hspell, Piece.spell, stringBytes.eq_def]
    simp [h, hlow, Except.toOption]
  | case5 d₁ d₂ d₃ d₄ n h hlow hhigh e₁ e₂ e₃ e₄ m hm ps hlow' ih =>
    rw [hspell, hspell, Piece.spell, Piece.spell, stringBytes.eq_def]
    simp [h, hlow, hhigh, hm, hlow', ih, reversedBytes, Function.comp_def, encode_cons]
  | case6 d₁ d₂ d₃ d₄ n h hlow hhigh e₁ e₂ e₃ e₄ m hm ps hlow' =>
    rw [hspell, hspell, Piece.spell, Piece.spell, stringBytes.eq_def]
    simp [h, hlow, hhigh, hm, hlow', Except.toOption]
  | case7 d₁ d₂ d₃ d₄ n h ps hlow hhigh hps =>
    rw [hspell, Piece.spell]
    exact stringBytes_unpaired h (by simpa using hlow) hhigh hps done rest
  | case8 d₁ d₂ d₃ d₄ n h ps hlow hhigh ih =>
    rw [hspell, Piece.spell]
    simp only [List.cons_append, List.nil_append]
    rw [stringBytes_unit h (by simpa using hlow) (by simpa using hhigh), ih]
    simp [reversedBytes, Function.comp_def, encode_cons]

theorem readString_quoted (ps : List Piece) (rest : Bytes) :
    (readString (quoted ps ++ rest)).toOption = (text? ps).map (·, rest) := by
  have hbytes := stringBytes_quoted ps [] rest
  rw [readString, text?]
  cases hc : chars? ps with
  | none =>
    rw [hc] at hbytes
    obtain ⟨e, he⟩ := exists_error hbytes
    rw [he]
    rfl
  | some cs =>
    rw [hc] at hbytes
    have hdecode := decode?_encode (String.ofList cs)
    rw [String.toList_ofList] at hdecode
    rw [eq_ok hbytes]
    simp [hdecode, Except.toOption]

/-! ## Values without parts -/

def Value.text? : Value → Option String
  | string text => text
  | _ => none

def Value.truth? : Value → Option Bool
  | boolean b => some b
  | _ => none

def Value.nothing? : Value → Option Unit
  | null => some ()
  | _ => none

theorem Value.eq_of_text? {v : Value} {text : String} (h : v.text? = some text) :
    v = .string (some text) := by
  cases v with
  | string text? => exact congrArg string h
  | _ => cases h

theorem Value.eq_of_truth? {v : Value} {b : Bool} (h : v.truth? = some b) : v = .boolean b := by
  cases v with
  | boolean c => exact congrArg boolean (Option.some.inj h)
  | _ => cases h

theorem Spells.skipBlank {v : Value} {t w : Bytes} (h : Spells (.value v) t) (hw : Blank w) (rest : Bytes) :
    ∃ b r, t = b :: r ∧ v.opens b = true ∧ skipBlank (w ++ (t ++ rest)) = b :: (r ++ rest) := by
  obtain ⟨b, r, rfl, hopens⟩ := h.opens
  refine ⟨b, r, rfl, hopens, ?_⟩
  rw [skipBlank_append hw, List.cons_append, skipBlank_cons (Value.not_isBlank hopens)]

theorem stringOf_understands (e : Expected) : Understands (stringOf e) Value.text? := by
  intro v t h w rest hw hrest
  obtain ⟨b, r, rfl, hopens, hs⟩ := h.skipBlank hw rest
  rw [stringOf, hs]
  cases h with
  | string ps h =>
    simp only [if_true, readString_quoted, h]
    rfl
  | _ =>
    simp only [Value.ne_of_opens hopens (rfl : Value.opens _ 0x22 = false), if_false]
    rfl

theorem boolean_understands : Understands boolean Value.truth? := by
  intro v t h w rest hw hrest
  obtain ⟨b, r, rfl, hopens, hs⟩ := h.skipBlank hw rest
  rw [boolean, hs]
  cases h with
  | yes =>
    simp only [if_true, expectTail_append]
    rfl
  | no =>
    have hne : (0x66 : UInt8) ≠ 0x74 := by decide
    simp only [hne, if_true, if_false, expectTail_append]
    rfl
  | _ =>
    simp only [Value.ne_of_opens hopens (rfl : Value.opens _ 0x74 = false),
      Value.ne_of_opens hopens (rfl : Value.opens _ 0x66 = false), if_false]
    rfl

theorem unit_understands : Understands unit Value.nothing? := by
  intro v t h w rest hw hrest
  obtain ⟨b, r, rfl, hopens, hs⟩ := h.skipBlank hw rest
  rw [unit, hs]
  cases h with
  | null =>
    simp only [if_true, expectTail_append]
    rfl
  | _ =>
    simp only [Value.ne_of_opens hopens (rfl : Value.opens _ 0x6E = false), if_false]
    rfl

/-! ## Lists -/

def Value.list? (meaning : Value → Option α) : Value → Option (List α)
  | array vs => vs.mapM meaning
  | _ => none

theorem list?_of_forall₂ {meaning : Value → Option α} {xs : List α} {vs : List Value}
    (h : List.Forall₂ (fun x v => meaning v = some x) xs vs) :
    (Value.array vs).list? meaning = some xs := by
  rw [Value.list?]
  induction h with
  | nil => rfl
  | cons hx _ ih => simp [hx, ih]

theorem forall₂_of_list? {meaning : Value → Option α} {v : Value} {xs : List α}
    (h : v.list? meaning = some xs) :
    ∃ vs, v = .array vs ∧ List.Forall₂ (fun x v => meaning v = some x) xs vs := by
  cases v with
  | array vs =>
    refine ⟨vs, rfl, ?_⟩
    rw [Value.list?] at h
    induction vs generalizing xs with
    | nil =>
      obtain rfl : [] = xs := by simpa using h
      exact .nil
    | cons v vs ih =>
      rw [List.mapM_cons] at h
      obtain ⟨x, hx, h⟩ := Option.bind_eq_some_iff.mp h
      obtain ⟨ys, hys, h⟩ := Option.bind_eq_some_iff.mp h
      obtain rfl := Option.some.inj h
      exact .cons hx (ih hys)
  | _ => cases h

theorem list?_eq_none {meaning : Value → Option α} {vs : List Value} {v : Value} (hv : v ∈ vs)
    (h : meaning v = none) : (Value.array vs).list? meaning = none := by
  rw [Value.list?]
  induction vs with
  | nil => cases hv
  | cons u vs ih =>
    rcases List.mem_cons.mp hv with rfl | hv
    · simp [h]
    · cases meaning u <;> simp [ih hv]

theorem nextElement_noItem {w : Bytes} (hw : Blank w) (first : Bool) (rest : Bytes) :
    nextElement first (w ++ 0x5D :: rest) = .ok (.finished rest) := by
  rw [nextElement, skipBlank_append hw, skipBlank_cons rfl]
  rfl

theorem nextElement_item {first : Bool} {g : Bytes} (hgap : Gap first g) {v : Value} {s : Bytes}
    (hv : Spells (.value v) s) (rest : Bytes) :
    nextElement first (g ++ (s ++ rest)) = .ok (.more (s ++ rest)) := by
  obtain ⟨b, r, rfl, hopens⟩ := hv.opens
  have hblank := Value.not_isBlank hopens
  have hclose := Value.ne_of_opens hopens v.not_opens_close
  cases hgap with
  | first hw =>
    rw [nextElement, skipBlank_append hw, List.cons_append, skipBlank_cons hblank]
    simp [hclose]
  | next hw hw' =>
    rw [List.append_assoc, nextElement, skipBlank_append hw, List.cons_append, skipBlank_cons rfl]
    simp [skipBlank_append hw', skipBlank_cons hblank, hclose]

theorem elements_items {reader : Reader α} {meaning : Value → Option α} (h : Understands reader meaning)
    {first : Bool} {vs : List Value} {t : Bytes} (ht : Spells (.items first vs) t) {bound : Bytes}
    (hbound : vs.length < bound.length) (done : List α) (rest : Bytes) :
    (elements reader bound first done (t ++ rest)).toOption =
      (vs.mapM meaning).map fun xs => (done.reverse ++ xs, rest) := by
  induction vs generalizing first t bound done with
  | nil =>
    obtain ⟨c, bound, rfl⟩ := List.exists_cons_of_length_pos hbound
    cases ht with
    | noItem hw =>
      rw [List.append_assoc, List.singleton_append, elements, nextElement_noItem hw]
      simp [Except.toOption]
  | cons v vs ih =>
    obtain ⟨c, bound, rfl⟩ := List.exists_cons_of_length_pos (Nat.zero_lt_of_lt hbound)
    cases ht with
    | @item _ g s t _ _ hgap hv hvs =>
      have hread := h hv (w := []) (by decide) (hvs.items_ends rest)
      rw [List.nil_append] at hread
      rw [List.append_assoc, List.append_assoc, elements, nextElement_item hgap hv]
      cases hm : meaning v with
      | none =>
        rw [hm] at hread
        obtain ⟨e, he⟩ := exists_error hread
        simp [he, hm, Except.toOption]
      | some x =>
        rw [hm] at hread
        have hleft : vs.length < bound.length := by simpa using hbound
        have hrest := ih hvs hleft (x :: done)
        simp only [eq_ok hread, hrest, List.mapM_cons, hm]
        cases vs.mapM meaning <;> simp

theorem Understands.sequence {reader : Reader α} {meaning : Value → Option α}
    (h : Understands reader meaning) : Understands (sequence reader) (Value.list? meaning) := by
  intro v t hv w rest hw hrest
  obtain ⟨b, r, rfl, hopens, hs⟩ := hv.skipBlank hw rest
  rw [Json.sequence, hs]
  cases hv with
  | @array vs _ hvs =>
    have hlength := hvs.length_items
    simp only [if_true]
    rw [elements_items h hvs (by simp only [List.length_cons, List.length_append]; omega)]
    rfl
  | _ =>
    simp only [Value.ne_of_opens hopens (rfl : Value.opens _ 0x5B = false), if_false]
    rfl

end Json

end ClassListing
