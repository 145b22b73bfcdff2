import ClassListing.Proofs.Json.Layouts
import ClassListing.Proofs.Json.Passing

/-!
# Only values are read

A reader that succeeds on a text has taken a value of the grammar, whatever it makes of it. So a text that a
reader takes as a whole is the text of a value.
-/

namespace ClassListing

set_option autoImplicit false

namespace Json

variable {α δ ρ : Type} {P : Bytes → Bytes → Prop}

/-- If the reader succeeds on a text, what it takes is as the relation of the text to what follows says. -/
def TakesOnly (P : Bytes → Bytes → Prop) (reader : Reader α) : Prop :=
  ∀ ⦃s : Bytes⦄ ⦃x : α⦄ ⦃rest : Bytes⦄, IsText s → reader s = .ok (x, rest) → P s rest ∧ IsText rest

theorem TakesOnly.hasText {reader : Reader α} (h : TakesOnly HasValue reader) {text : Bytes} {x : α}
    (ht : IsText text) (hread : whole reader text = .ok x) : ∃ v : Value, v.HasText text := by
  unfold whole at hread
  split at hread
  · cases hread
  · next rest hreader =>
    split at hread
    · next hblank =>
      obtain ⟨⟨w, v, t, hw, hv, rfl⟩, -⟩ := h ht hreader
      obtain ⟨w', hw', hrest⟩ := exists_blank rest
      rw [hblank, List.append_nil] at hrest
      exact ⟨v, .mk hw hv (hrest ▸ hw')⟩
    · cases hread

/-- What is found behind blanks. -/
theorem takes_of_skipBlank {s rest r : Bytes} {b : UInt8} (hs : IsText s) (hb : skipBlank s = b :: r)
    (h : IsText (b :: r) → HasValue (b :: r) rest ∧ IsText rest) : HasValue s rest ∧ IsText rest := by
  obtain ⟨w, hw, rfl⟩ := exists_blank_cons hb
  obtain ⟨hv, hrest⟩ := h (hs.of_append hw.ascii)
  exact ⟨hv.blank hw, hrest⟩

/-! ## Values without parts -/

/-- A string that is read could also be passed over. -/
theorem skipString_of_stringBytes {done s bytes rest : Bytes} (h : stringBytes done s = .ok (bytes, rest)) :
    skipString s = .ok rest := by
  fun_induction stringBytes done s with
  | case2 done r =>
    cases h
    rw [skipString.eq_def]
    rfl
  | case9 done d₁ d₂ d₃ d₄ n hn hlow hhigh e₁ e₂ e₃ e₄ r low hlow' hpair hne ih =>
    exact (skipString_spell (.unit _ _ _ _ n hn) _).trans
      ((skipString_spell (.unit _ _ _ _ low hlow') _).trans (ih h))
  | case14 done d₁ d₂ d₃ d₄ r n hn hlow hhigh hne ih =>
    exact (skipString_spell (.unit _ _ _ _ n hn) _).trans (ih h)
  | case16 done e r hunit c he hne ih =>
    rw [skipString.eq_def]
    simpa [hunit, he] using ih h
  | case19 done b r hquote hslash hcontrol ih =>
    rw [skipString.eq_def]
    simpa only [hquote, hslash, hcontrol, if_false] using ih h
  | _ => cases h

theorem exists_quoted_of_readString {s rest : Bytes} {text : String} (hs : IsText s)
    (h : readString s = .ok (text, rest)) : ∃ ps, s = quoted ps ++ rest ∧ IsText rest := by
  unfold readString at h
  split at h
  · cases h
  · next hbytes =>
    split at h
    · cases h
      exact exists_quoted hs (skipString_of_stringBytes hbytes)
    · cases h

theorem stringOf_takesOnly (e : Expected) : TakesOnly HasValue (stringOf e) := by
  intro s text rest hs h
  unfold stringOf at h
  split at h
  · cases h
  · next b r hb =>
    refine takes_of_skipBlank hs hb fun hr => ?_
    split at h
    · next hquote =>
      subst hquote
      obtain ⟨ps, rfl, hrest⟩ := exists_quoted_of_readString (hr.of_cons (by decide)) h
      exact ⟨.of_spells (.string ps rfl), hrest⟩
    · cases h

theorem map_eq_ok {α β : Type} {x : Except Error α} {f : α → β} {y : β} (h : x.map f = .ok y) :
    ∃ a, x = .ok a ∧ f a = y := by
  cases x with
  | error e => cases h
  | ok a => exact ⟨a, rfl, Except.ok.inj h⟩

/-- The rest of a word whose first byte has been seen, and what the word stands for. -/
theorem word_takes {v : Value} {b : UInt8} {tail r rest : Bytes} {x y : α}
    (hv : Spells (.value v) (b :: tail)) (ht : Ascii (b :: tail)) (hs : IsText (b :: r))
    (h : ((expectTail tail r).map fun r => (x, r)) = .ok (y, rest)) :
    HasValue (b :: r) rest ∧ IsText rest := by
  obtain ⟨_, htail, heq⟩ := map_eq_ok h
  cases heq
  exact hasValue_word hv ht hs htail

theorem boolean_takesOnly : TakesOnly HasValue boolean := by
  intro s b rest hs h
  unfold boolean at h
  split at h
  · cases h
  · next c r hc =>
    refine takes_of_skipBlank hs hc fun hr => ?_
    split at h
    · next hfirst =>
      subst hfirst
      exact word_takes .yes (by decide) hr h
    split at h
    · next hfirst =>
      subst hfirst
      exact word_takes .no (by decide) hr h
    · cases h

theorem unit_takesOnly : TakesOnly HasValue unit := by
  intro s u rest hs h
  unfold unit at h
  split at h
  · cases h
  · next c r hc =>
    refine takes_of_skipBlank hs hc fun hr => ?_
    split at h
    · next hfirst =>
      subst hfirst
      exact word_takes .null (by decide) hr h
    · cases h

/-! ## Lists -/

theorem Gap.ascii {first : Bool} {g : Bytes} (h : Gap first g) : Ascii g := by
  cases h with
  | first hw => exact hw.ascii
  | next hw hw' => exact hw.ascii.append (Ascii.append (s := [0x2C]) (by decide) hw'.ascii)

theorem finished_of_nextElement {first : Bool} {s rest : Bytes}
    (h : nextElement first s = .ok (.finished rest)) : skipBlank s = 0x5D :: rest := by
  unfold nextElement at h
  split at h
  · cases h
  · next b r hb =>
    split at h
    · next hclose =>
      cases h
      rw [hb, hclose]
    split at h
    · cases h
    split at h
    · split at h
      · cases h
      · split at h <;> cases h
    · cases h

theorem more_of_nextElement {first : Bool} {s s' : Bytes} (h : nextElement first s = .ok (.more s')) :
    ∃ g, Gap first g ∧ s = g ++ s' := by
  unfold nextElement at h
  split at h
  · cases h
  · next b r hb =>
    obtain ⟨w, hw, rfl⟩ := exists_blank_cons hb
    split at h
    · cases h
    split at h
    · next hfirst =>
      cases h
      exact ⟨w, hfirst ▸ .first hw, rfl⟩
    · next hfirst =>
      split at h
      · next hcomma =>
        split at h
        · cases h
        · next c r' hc =>
          obtain ⟨w', hw', rfl⟩ := exists_blank_cons hc
          split at h
          · cases h
          · cases h
            rw [Bool.not_eq_true] at hfirst
            exact ⟨w ++ 0x2C :: w', hfirst ▸ .next hw hw', by simp [hcomma]⟩
      · cases h

theorem elements_takes {element : Reader α} (he : TakesOnly HasValue element) {bound : Bytes} {first : Bool}
    {done xs : List α} {s rest : Bytes} (hs : IsText s)
    (h : elements element bound first done s = .ok (xs, rest)) :
    HasItems first s rest ∧ IsText rest := by
  induction bound generalizing first done s with
  | nil => cases h
  | cons c bound ih =>
    rw [elements] at h
    split at h
    · cases h
    · next hclose =>
      cases h
      obtain ⟨w, hw, rfl⟩ := exists_blank_cons (finished_of_nextElement hclose)
      exact ⟨.nil hw, hs.of_blank_cons hw (by decide)⟩
    · next s' hmore =>
      obtain ⟨g, hg, rfl⟩ := more_of_nextElement hmore
      split at h
      · cases h
      · next x s'' helement =>
        obtain ⟨hv, hs''⟩ := he (hs.of_append hg.ascii) helement
        obtain ⟨hitems, hrest⟩ := ih hs'' h
        exact ⟨.cons hg hv hitems, hrest⟩

theorem TakesOnly.sequence {element : Reader α} (he : TakesOnly HasValue element) :
    TakesOnly HasValue (sequence element) := by
  intro s xs rest hs h
  unfold Json.sequence at h
  split at h
  · cases h
  · next b r hb =>
    refine takes_of_skipBlank hs hb fun hr => ?_
    split at h
    · next hopen =>
      subst hopen
      obtain ⟨hitems, hrest⟩ := elements_takes he (hr.of_cons (by decide)) h
      exact ⟨.array hitems, hrest⟩
    · cases h

/-! ## Objects -/

theorem exists_of_nextKey_finished {first : Bool} {s rest : Bytes}
    (h : nextKey first s = .ok (.finished rest)) : ∃ w, Blank w ∧ s = w ++ 0x7D :: rest := by
  unfold nextKey at h
  split at h
  · cases h
  · next b r hb =>
    split at h
    · next hclose =>
      cases h
      exact hclose ▸ exists_blank_cons hb
    split at h
    · split at h <;> cases h
    split at h
    · split at h
      · cases h
      · split at h
        · cases h
        · split at h <;> cases h
    · cases h

theorem exists_of_nextKey_more {first : Bool} {s s' : Bytes} (h : nextKey first s = .ok (.more s')) :
    ∃ g, Gap first g ∧ s = g ++ 0x22 :: s' := by
  unfold nextKey at h
  split at h
  · cases h
  · next b r hb =>
    obtain ⟨w, hw, rfl⟩ := exists_blank_cons hb
    split at h
    · cases h
    split at h
    · next hfirst =>
      split at h
      · next hquote =>
        cases h
        exact ⟨w, hfirst ▸ .first hw, by rw [hquote]⟩
      · cases h
    · next hfirst =>
      split at h
      · next hcomma =>
        split at h
        · cases h
        · next c r' hc =>
          obtain ⟨w', hw', rfl⟩ := exists_blank_cons hc
          split at h
          · next hquote =>
            cases h
            rw [Bool.not_eq_true] at hfirst
            exact ⟨w ++ 0x2C :: w', hfirst ▸ .next hw hw', by simp [hcomma, hquote]⟩
          · split at h <;> cases h
      · cases h

theorem assigned_of_colon {value : Reader α} (hv : TakesOnly HasValue value) {s s' rest : Bytes} {x : α}
    (hs : IsText s) (hc : colon s = .ok s') (h : value s' = .ok (x, rest)) :
    HasAssigned s rest ∧ IsText rest := by
  obtain ⟨w, hw, rfl⟩ := exists_colon hc
  obtain ⟨hvalue, hrest⟩ := hv (hs.of_blank_cons hw (by decide)) h
  exact ⟨⟨w, s', hw, rfl, hvalue⟩, hrest⟩

/-- The value of a known key, whatever becomes of it. -/
theorem onceOnly_takes {value : Reader α} (hv : TakesOnly HasValue value) {key : String} {old : Option α}
    {enter : α × Bytes → δ × Bytes} {s rest : Bytes} {d : δ} (hs : IsText s)
    (h : (onceOnly key old value s).map enter = .ok (d, rest)) (henter : ∀ p, (enter p).2 = p.2) :
    HasAssigned s rest ∧ IsText rest := by
  obtain ⟨⟨x, s'⟩, hread, heq⟩ := map_eq_ok h
  obtain rfl : rest = s' := (congrArg Prod.snd heq).symm.trans (henter (x, s'))
  unfold onceOnly at hread
  split at hread
  · cases hread
  · split at hread
    · cases hread
    · next hc => exact assigned_of_colon hv hs hc hread

theorem unknown_takes {d d' : δ} {s rest : Bytes} (hs : IsText s)
    (h : (match colon s with
      | .error e => Except.error e
      | .ok s => (skipValue s).map fun s => (d, s)) = .ok (d', rest)) :
    HasAssigned s rest ∧ IsText rest := by
  split at h
  · cases h
  · next hc =>
    have hskip : TakesOnly HasValue fun s => (skipValue s).map fun s => (d, s) := by
      intro s d' rest hs h
      obtain ⟨_, hskip, heq⟩ := map_eq_ok h
      cases heq
      exact hasValue_of_skipValue hs hskip
    exact assigned_of_colon hskip hs hc h

theorem entries_takes {entry : String → δ → Reader δ} (he : ∀ key d, TakesOnly HasAssigned (entry key d))
    {bound : Bytes} {first : Bool} {d d' : δ} {s rest : Bytes} (hs : IsText s)
    (h : entries entry bound first d s = .ok (d', rest)) : HasEntries first s rest ∧ IsText rest := by
  induction bound generalizing first d s with
  | nil => cases h
  | cons c bound ih =>
    rw [entries] at h
    split at h
    · cases h
    · next hclose =>
      cases h
      obtain ⟨w, hw, rfl⟩ := exists_of_nextKey_finished hclose
      exact ⟨.nil hw, hs.of_blank_cons hw (by decide)⟩
    · next s' hmore =>
      obtain ⟨g, hg, rfl⟩ := exists_of_nextKey_more hmore
      split at h
      · cases h
      · next key s'' hkey =>
        obtain ⟨ps, rfl, hs''⟩ := exists_quoted_of_readString
          ((hs.of_append hg.ascii).of_cons (by decide)) hkey
        split at h
        · cases h
        · next d₁ s₁ hentry =>
          obtain ⟨hv, hs₁⟩ := he key d hs'' hentry
          obtain ⟨hentries, hrest⟩ := ih hs₁ h
          exact ⟨.cons hg ps hv hentries, hrest⟩

/-! ## Records -/

/-- A list that is at its end has no items, whether one has come before or not. -/
theorem HasItems.at_end {first first' : Bool} {s rest : Bytes} (h : HasItems first s rest)
    (hend : ∃ r, skipBlank s = 0x5D :: r) : HasItems first' s rest := by
  obtain ⟨r, hr⟩ := hend
  obtain ⟨vs, t, ht, rfl⟩ := h
  cases ht with
  | noItem hw => exact ⟨[], _, .noItem hw, rfl⟩
  | @item _ g s t v vs hgap hv hvs =>
    have hmore := nextElement_item hgap hv (t ++ rest)
    rw [List.append_assoc, List.append_assoc] at hr
    simp [nextElement, hr] at hmore

theorem HasItems.isNone {s rest : Bytes} {x : Option α}
    (hend : x = none → ∃ r, skipBlank s = 0x5D :: r)
    (h : HasItems x.isNone s rest ∧ IsText rest) : HasItems false s rest ∧ IsText rest := by
  cases x with
  | none => exact ⟨h.1.at_end (hend rfl), h.2⟩
  | some x => exact h

theorem element?_takes {value : Reader α} (hv : TakesOnly HasValue value) {first : Bool} {s rest : Bytes}
    {read : Option α × Bytes → Except Error (ρ × Bytes)} {y : ρ} (hs : IsText s)
    (h : (element? first value s >>= read) = .ok (y, rest))
    (hnext : ∀ x s', IsText s' → (x = none → ∃ r, skipBlank s' = 0x5D :: r) →
      read (x, s') = .ok (y, rest) → HasItems false s' rest ∧ IsText rest) :
    HasItems first s rest ∧ IsText rest := by
  unfold element? at h
  cases hn : nextElement first s with
  | error e => rw [hn] at h; cases h
  | ok next =>
    rw [hn] at h
    cases next with
    | finished r =>
      have hend : ∃ r, skipBlank s = 0x5D :: r := ⟨r, finished_of_nextElement hn⟩
      obtain ⟨hitems, hrest⟩ := hnext none s hs (fun _ => hend) h
      exact ⟨hitems.at_end hend, hrest⟩
    | more s' =>
      obtain ⟨g, hg, rfl⟩ := more_of_nextElement hn
      cases hread : value s' with
      | error e => simp only [hread] at h; cases h
      | ok p =>
        simp only [hread] at h
        obtain ⟨hvalue, hs''⟩ := hv (hs.of_append hg.ascii) hread
        obtain ⟨hitems, hrest⟩ := hnext (some p.1) p.2 hs'' nofun h
        exact ⟨.cons hg hvalue hitems, hrest⟩

theorem endOfRecord_takes {s rest : Bytes} {x y : ρ} (hs : IsText s)
    (h : (endOfRecord s >>= fun s => Except.ok (x, s)) = .ok (y, rest)) :
    HasItems false s rest ∧ IsText rest := by
  unfold endOfRecord at h
  split at h
  · cases h
  · next b r hb =>
    split at h
    · next hclose =>
      cases h
      obtain ⟨w, hw, rfl⟩ := exists_blank_cons (hclose ▸ hb)
      exact ⟨.nil hw, hs.of_blank_cons hw (by decide)⟩
    · split at h <;> cases h

theorem readRecord_takesOnly {elements : Reader ρ} {entry : String → δ → Reader δ} {start : δ}
    {finish : δ → Except Error ρ} (expected : Expected) (hlist : TakesOnly (HasItems true) elements)
    (he : ∀ key d, TakesOnly HasAssigned (entry key d)) :
    TakesOnly HasValue (readRecord elements entry start finish expected) := by
  intro s x rest hs h
  unfold readRecord at h
  split at h
  · cases h
  · next b r hb =>
    refine takes_of_skipBlank hs hb fun hr => ?_
    split at h
    · next hopen =>
      subst hopen
      obtain ⟨hitems, hrest⟩ := hlist (hr.of_cons (by decide)) h
      exact ⟨.array hitems, hrest⟩
    split at h
    · next hopen =>
      subst hopen
      split at h
      · cases h
      · next hentries =>
        obtain ⟨_, -, heq⟩ := map_eq_ok h
        cases heq
        obtain ⟨hes, hrest⟩ := entries_takes he (hr.of_cons (by decide)) hentries
        exact ⟨.object hes, hrest⟩
    · cases h

end Json

end ClassListing
