import ClassListing.CommandLine.Arguments

/-!
# What a command line has given

Reading words only adds to the options that were given before, and a word that is an option without a value
is among them in the end.
-/

namespace ClassListing

set_option autoImplicit false

namespace Reading

variable {r r' : Reading} {gs : List Given}

theorem given_of_add {g : Given} (h : r.add g = .ok r') : r'.given = r.given ++ [g] := by
  unfold add at h
  split at h
  · cases h
  · split at h
    · cases h
    · split at h
      · cases h
      · cases h
        rfl

theorem pending_of_add {g : Given} (h : r.add g = .ok r') : r'.pending = r.pending := by
  unfold add at h
  split at h
  · cases h
  · split at h
    · cases h
    · split at h
      · cases h
      · cases h
        rfl

/-- An option is added at once, or it takes values and is still to be added. -/
theorem cases_of_option {k : OptionKey} {value : Option String} (h : r.option k value = .ok r') :
    ∃ s, r.settle = .ok s ∧ ((∃ values, s.add ⟨k, values⟩ = .ok r') ∨
      (k.arity ≠ .none ∧ r' = { s with pending := some ⟨k, []⟩ })) := by
  unfold option at h
  cases hs : r.settle with
  | error e =>
    simp only [hs] at h
    split at h <;> cases h
  | ok s =>
    refine ⟨s, rfl, ?_⟩
    simp only [hs] at h
    split at h
    · cases h
    · split at h
      · cases h
      · split at h
        · cases h
        · exact .inl ⟨[], h⟩
    · exact .inl ⟨[_], h⟩
    · next hk =>
      cases h
      exact .inr ⟨hk, rfl⟩

theorem has_of_option {k : OptionKey} {value : Option String} (hk : k.arity = .none)
    (h : r.option k value = .ok r') : Given.has r'.given k = true := by
  obtain ⟨s, -, ⟨values, ha⟩ | ⟨hne, -⟩⟩ := cases_of_option h
  · rw [given_of_add ha, Given.has, List.any_append]
    simp
  · exact absurd hk hne

/-! ## What all words keep -/

/-- What the next words keep, whatever they are: it is kept when an option is added, and when one that takes
values is begun, continued or settled. -/
structure Invariant (P : Reading → Prop) : Prop where
  add : ∀ {r g r'}, P r → r.add g = .ok r' → P r'
  settled : ∀ {r}, P r → P { r with pending := none }
  begun : ∀ {r} {k : OptionKey}, k.arity ≠ .none → P r → P { r with pending := some ⟨k, []⟩ }
  continued : ∀ {r g} (values : List String), r.pending = some g → P r →
    P { r with pending := some { g with values } }

namespace Invariant

variable {P : Reading → Prop} (hP : Invariant P)
include hP

theorem settle (hr : P r) (h : r.settle = .ok r') : P r' := by
  unfold Reading.settle at h
  split at h
  · cases h
    exact hr
  · exact hP.add (hP.settled hr) h

theorem option {k : OptionKey} {value : Option String} (hr : P r)
    (h : r.option k value = .ok r') : P r' := by
  obtain ⟨s, hs, ⟨values, ha⟩ | ⟨hk, hpending⟩⟩ := cases_of_option h
  · exact hP.add (hP.settle hr hs) ha
  · rw [hpending]
    exact hP.begun hk (hP.settle hr hs)

theorem letters {cs : List Char} (hr : P r) (h : r.letters cs = .ok r') : P r' := by
  induction cs generalizing r with
  | nil =>
    cases h
    exact hr
  | cons c cs ih =>
    unfold Reading.letters at h
    split at h
    · cases h
    · split at h
      · split at h
        · cases h
        · next s hs => exact ih (hP.option hr hs) h
      · exact hP.option hr h

theorem value {text : String} (hr : P r) (h : r.value text = .ok r') : P r' := by
  unfold Reading.value at h
  split at h
  · cases h
  · next g hp =>
    split at h
    · cases h
      exact hP.continued _ hp hr
    · cases h

end Invariant

/-- A word that is no terminator leads somewhere, whatever words come after it. If it is an option without a
value, this option is given there. -/
theorem exists_words_cons {word : String} {ws : List String} (h : r.words (word :: ws) = .ok gs)
    (hne : Word.ofText word ≠ .terminator) :
    ∃ s : Reading, (∀ {P}, Invariant P → P r → P s) ∧
      (∀ ws, r.words (word :: ws) = s.words ws) ∧
      ∀ name k, Word.ofText word = .long name none → OptionKey.ofLong? name = some k →
        k.arity = .none → Given.has s.given k = true := by
  unfold words at h
  cases hw : Word.ofText word with
  | terminator => exact absurd hw hne
  | long name value =>
    simp only [hw] at h
    cases hk : OptionKey.ofLong? name with
    | none => simp [hk] at h
    | some k =>
      cases hs : r.option k value with
      | error e => simp [hk, hs] at h
      | ok s =>
        refine ⟨s, fun hP hr => hP.option hr hs, fun ws => ?_, ?_⟩
        · rw [words.eq_def]
          simp only [hw, hk, hs]
        · intro name' k' hname hk' harity
          cases hname
          rw [hk] at hk'
          cases hk'
          exact has_of_option harity hs
  | short cs =>
    simp only [hw] at h
    cases hs : r.letters cs with
    | error e => simp [hs] at h
    | ok s =>
      refine ⟨s, fun hP hr => hP.letters hr hs, fun ws => ?_, by simp⟩
      rw [words.eq_def]
      simp only [hw, hs]
  | plain text =>
    simp only [hw] at h
    cases hs : r.value text with
    | error e => simp [hs] at h
    | ok s =>
      refine ⟨s, fun hP hr => hP.value hr hs, fun ws => ?_, by simp⟩
      rw [words.eq_def]
      simp only [hw, hs]

/-- In the end the last option is settled. -/
theorem exists_of_end (h : r.settle.map (·.given) = .ok gs) :
    ∃ s : Reading, r.settle = .ok s ∧ s.given = gs := by
  cases hs : r.settle with
  | error e => simp [hs, Except.map] at h
  | ok s =>
    simp only [hs, Except.map, Except.ok.injEq] at h
    exact ⟨s, rfl, h⟩

theorem words_terminator {word : String} {ws : List String} (hw : Word.ofText word = .terminator)
    (h : r.words (word :: ws) = .ok gs) : ws = [] ∧ r.settle.map (·.given) = .ok gs := by
  unfold words at h
  simp only [hw] at h
  cases ws with
  | nil => exact ⟨rfl, h⟩
  | cons w ws => cases h

theorem Invariant.words {P : Reading → Prop} (hP : Invariant P) {ws : List String} (hr : P r)
    (h : r.words ws = .ok gs) : ∃ s : Reading, P s ∧ s.given = gs := by
  induction ws generalizing r with
  | nil =>
    obtain ⟨s, hs, hgiven⟩ := exists_of_end h
    exact ⟨s, hP.settle hr hs, hgiven⟩
  | cons w ws ih =>
    by_cases hw : Word.ofText w = .terminator
    · obtain ⟨s, hs, hgiven⟩ := exists_of_end (words_terminator hw h).2
      exact ⟨s, hP.settle hr hs, hgiven⟩
    · obtain ⟨s, hkeeps, hwords, -⟩ := exists_words_cons h hw
      rw [hwords] at h
      exact ih (hkeeps hP hr) h

/-! ## Options are only added -/

theorem given_remains (r : Reading) : Invariant fun s => r.given <+: s.given where
  add {s g s'} hs ha := by
    rw [given_of_add ha]
    exact hs.trans (List.prefix_append _ _)
  settled hs := hs
  begun _ hs := hs
  continued _ _ hs := hs

theorem given_prefix_of_words {ws : List String} (h : r.words ws = .ok gs) : r.given <+: gs := by
  obtain ⟨s, hs, hgiven⟩ := (given_remains r).words List.prefix_rfl h
  exact hgiven ▸ hs

theorem has_of_prefix {as bs : List Given} (h : as <+: bs) {k : OptionKey}
    (hk : Given.has as k = true) : Given.has bs k = true := by
  obtain ⟨more, rfl⟩ := h
  rw [Given.has, List.any_append]
  exact Bool.or_eq_true_iff.mpr (.inl hk)

/-- An option without a value that stands among the words is given. -/
theorem has_of_mem_words {ws : List String} (h : r.words ws = .ok gs) {word name : String}
    {k : OptionKey} (hmem : word ∈ ws) (hword : Word.ofText word = .long name none)
    (hk : OptionKey.ofLong? name = some k) (ha : k.arity = .none) : Given.has gs k = true := by
  induction ws generalizing r with
  | nil => cases hmem
  | cons w ws ih =>
    by_cases hw : Word.ofText w = .terminator
    · obtain ⟨rfl, -⟩ := words_terminator hw h
      cases List.mem_singleton.mp hmem
      rw [hword] at hw
      cases hw
    · obtain ⟨s, -, hwords, hflag⟩ := exists_words_cons h hw
      rw [hwords] at h
      rcases List.mem_cons.mp hmem with rfl | hmem
      · exact has_of_prefix (given_prefix_of_words h) (hflag name k hword hk ha)
      · exact ih h hmem

/-! ## Values -/

/-- Every value that is given is one that its option accepts. -/
def Accepted (gs : List Given) : Prop := ∀ g ∈ gs, ∀ v ∈ g.values, g.key.accepts v = true

theorem accepted_of_add {g : Given} (hr : Accepted r.given) (h : r.add g = .ok r') :
    Accepted r'.given := by
  rw [given_of_add h]
  unfold add at h
  split at h
  · cases h
  · split at h
    · cases h
    · split at h
      · cases h
      · next hnone =>
        intro g' hg' v hv
        rcases List.mem_append.mp hg' with hg' | hg'
        · exact hr g' hg' v hv
        · rw [List.mem_singleton.mp hg'] at hv ⊢
          simpa using List.find?_eq_none.mp hnone v hv

theorem accepted : Invariant fun r => Accepted r.given where
  add := accepted_of_add
  settled hr := hr
  begun _ hr := hr
  continued _ _ hr := hr

theorem accepted_of_words {ws : List String} (h : words ⟨[], none⟩ ws = .ok gs) : Accepted gs := by
  obtain ⟨s, hs, hgiven⟩ := accepted.words (r := ⟨[], none⟩) (by rintro g ⟨⟩) h
  exact hgiven ▸ hs

end Reading

namespace Given

theorem parts_of_invocation {gs : List Given} {i : Invocation} (hi : invocation gs = .ok i) :
    selection gs = .ok i.selection ∧ i.destination = destination gs := by
  unfold invocation at hi
  split at hi
  · cases hi
  · cases hs : selection gs with
    | error e => simp [hs] at hi
    | ok s =>
      simp only [hs, Except.ok.injEq] at hi
      rw [← hi]
      exact ⟨rfl, rfl⟩

theorem selection_of_boot {gs : List Given} {s : Selection} (hb : has gs .boot = true)
    (hs : selection gs = .ok s) : s = .boot := by
  have hmem : OptionKey.boot ∈ selectors.filter (has gs) :=
    List.mem_filter.mpr ⟨by decide, hb⟩
  unfold selection at hs
  split at hs
  · next hnone =>
    rw [hnone] at hmem
    cases hmem
  · cases hs
  · next k hone =>
    rw [hone] at hmem
    cases List.mem_singleton.mp hmem
    cases hs
    rfl

theorem directory_ne_empty_of_accepted {gs : List Given} (hgs : Reading.Accepted gs)
    {directory : String} {summary : Bool} (hd : destination gs = .file directory summary) :
    directory ≠ "" := by
  unfold destination at hd
  split at hd
  · cases hd
  · cases hv : value? gs .directory with
    | none =>
      rw [hv] at hd
      cases hd
      decide
    | some v =>
      rw [hv] at hd
      cases hd
      obtain ⟨g, hg, hmem⟩ := List.mem_flatMap.mp (List.mem_of_head? hv)
      split at hmem
      · next hkey =>
        have haccepts := hgs g hg v hmem
        rw [hkey] at haccepts
        exact of_decide_eq_true haccepts
      · cases hmem

end Given

/-- A listing is asked for if all words can be read and the options go together. -/
theorem Request.ofArguments_eq_listing_iff {args : List String} {i : Invocation} :
    ofArguments args = .ok (.listing i) ↔
      ∃ gs, Reading.words ⟨[], none⟩ (args.map spelled) = .ok gs ∧ Given.invocation gs = .ok i := by
  unfold ofArguments
  cases Reading.words ⟨[], none⟩ (args.map spelled) with
  | error e => cases e <;> simp
  | ok gs => cases hi : Given.invocation gs <;> simp [hi]

/-- Both spellings select the boot class path. -/
theorem Request.selection_of_boot {args : List String} {i : Invocation}
    (ha : ofArguments args = .ok (.listing i)) (hb : "--boot" ∈ args ∨ "-boot" ∈ args) :
    i.selection = .boot := by
  have hmem : "--boot" ∈ args.map spelled := by
    rcases hb with hb | hb
    · exact List.mem_map.mpr ⟨_, hb, by decide⟩
    · exact List.mem_map.mpr ⟨_, hb, by decide⟩
  have hword : Word.ofText "--boot" = .long "boot" none := by decide +kernel
  obtain ⟨gs, hr, hi⟩ := ofArguments_eq_listing_iff.mp ha
  have hgiven := Reading.has_of_mem_words hr hmem hword (k := .boot) (by decide) rfl
  exact Given.selection_of_boot hgiven (Given.parts_of_invocation hi).1

/-- The directory for the output is never empty. -/
theorem Request.directory_ne_empty {args : List String} {i : Invocation} {directory : String}
    {summary : Bool} (ha : ofArguments args = .ok (.listing i))
    (hd : i.destination = .file directory summary) : directory ≠ "" := by
  obtain ⟨gs, hr, hi⟩ := ofArguments_eq_listing_iff.mp ha
  rw [(Given.parts_of_invocation hi).2] at hd
  exact Given.directory_ne_empty_of_accepted (Reading.accepted_of_words hr) hd

end ClassListing
