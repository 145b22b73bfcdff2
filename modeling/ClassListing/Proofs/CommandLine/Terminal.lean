import ClassListing.Proofs.CommandLine.Options

/-!
# Command lines with the terminal option left out

A command line for standard output is one for a file when its option is left out, and all else that it says
stays. Reading the words that remain gives the same options: what comes after the option completes the
one before it just as the option has done.
-/

namespace ClassListing

set_option autoImplicit false

/-! ## Options without the one for the terminal -/

namespace Given

def withoutTerminal (gs : List Given) : List Given := gs.filter fun g => g.key ≠ .terminal

theorem has_withoutTerminal {k : OptionKey} (hk : k ≠ .terminal) (gs : List Given) :
    has (withoutTerminal gs) k = has gs k := by
  rw [has, has, withoutTerminal, List.any_filter]
  congr 1
  funext g
  by_cases hg : g.key = k
  · simp [hg, hk]
  · simp [hg]

theorem not_has_terminal (gs : List Given) : has (withoutTerminal gs) .terminal = false := by
  simp [has, withoutTerminal, List.any_filter]

theorem has_of_withoutTerminal {k : OptionKey} {gs : List Given}
    (h : has (withoutTerminal gs) k = true) : has gs k = true := by
  by_cases hk : k = .terminal
  · rw [hk, not_has_terminal] at h
    cases h
  · rwa [has_withoutTerminal hk] at h

theorem valuesOf_withoutTerminal {k : OptionKey} (hk : k ≠ .terminal) (gs : List Given) :
    valuesOf (withoutTerminal gs) k = valuesOf gs k := by
  induction gs with
  | nil => rfl
  | cons g gs ih =>
    simp only [withoutTerminal, valuesOf, ne_eq, decide_not] at ih ⊢
    by_cases hg : g.key = .terminal
    · simp [hg, ih, Ne.symm hk]
    · simp [hg, ih]

theorem withoutTerminal_of_not_has {gs : List Given} (h : has gs .terminal = false) :
    withoutTerminal gs = gs := by
  apply List.filter_eq_self.mpr
  intro g hg
  have hne := List.any_eq_false.mp h g hg
  simpa using hne

theorem valuesOf_of_not_has {gs : List Given} {k : OptionKey} (h : has gs k = false) :
    valuesOf gs k = [] := by
  apply List.flatMap_eq_nil_iff.mpr
  intro g hg
  have hne := List.any_eq_false.mp h g hg
  rw [if_neg (by simpa using hne)]

theorem selection_withoutTerminal (gs : List Given) : selection (withoutTerminal gs) = selection gs := by
  have hfilter : selectors.filter (has (withoutTerminal gs)) = selectors.filter (has gs) := by
    apply List.filter_congr
    intro k hk
    apply has_withoutTerminal
    rintro rfl
    revert hk
    decide
  unfold selection
  rw [hfilter]
  split
  · rfl
  · rfl
  · next k hone =>
    have hk : k ≠ .terminal := by
      rintro rfl
      have hmem : OptionKey.terminal ∈ selectors.filter (has gs) := by rw [hone]; exact .head _
      have hselector := (List.mem_filter.mp hmem).1
      revert hselector
      decide
    rw [value?, value?, valuesOf_withoutTerminal hk,
      valuesOf_withoutTerminal (k := .classes) (by decide),
      has_withoutTerminal (k := .platformOnly) (by decide)]

/-- What all options say with the terminal left out. -/
theorem invocation_withoutTerminal {gs : List Given} {i : Invocation}
    (hterminal : has gs .terminal = true) (hi : invocation gs = .ok i) :
    i.destination = .terminal ∧
      invocation (withoutTerminal gs) = .ok { i with destination := .file "." false } := by
  unfold invocation at hi
  split at hi
  · cases hi
  · next hex =>
    have hnone := List.find?_eq_none.mp hex
    have hdirectory : has gs .directory = false := by
      simpa [hterminal] using hnone (.terminal, .directory) (by decide)
    have hsummary : has gs .summary = false := by
      simpa [hterminal] using hnone (.terminal, .summary) (by decide)
    have hfile : destination (withoutTerminal gs) = .file "." false := by
      simp [destination, not_has_terminal, value?, valuesOf_withoutTerminal,
        valuesOf_of_not_has hdirectory, has_withoutTerminal, hsummary]
    cases hs : selection gs with
    | error e => simp [hs] at hi
    | ok s =>
      simp only [hs, Except.ok.injEq] at hi
      refine ⟨by rw [← hi]; simp [destination, hterminal], ?_⟩
      unfold invocation
      split
      · next a b hsome =>
        have hfound : (has (withoutTerminal gs) a && has (withoutTerminal gs) b) = true := by
          simpa using List.find?_some hsome
        obtain ⟨ha, hb⟩ := Bool.and_eq_true_iff.mp hfound
        have hboth : (has gs a && has gs b) = true := by
          rw [has_of_withoutTerminal ha, has_of_withoutTerminal hb]
          rfl
        exact absurd hboth (hnone (a, b) (List.mem_of_find?_eq_some hsome))
      · simp only [selection_withoutTerminal, hs, hfile, ← hi, value?,
          valuesOf_withoutTerminal (k := .format) (by decide),
          valuesOf_withoutTerminal (k := .filter) (by decide),
          valuesOf_withoutTerminal (k := .catalog) (by decide),
          has_withoutTerminal (k := .verbose) (by decide)]

end Given

/-! ## Words without the option -/

open Given (withoutTerminal)

namespace Reading

def withoutTerminal (r : Reading) : Reading := { r with given := Given.withoutTerminal r.given }

/-- The option takes no values, so it is never the one whose values may still come. -/
def Usual (r : Reading) : Prop := ∀ g ∈ r.pending, g.key ≠ .terminal

variable {r r' s : Reading} {gs : List Given}

theorem add_withoutTerminal (r : Reading) {g : Given} (hg : g.key ≠ .terminal) :
    r.withoutTerminal.add g = (r.add g).map withoutTerminal := by
  have hany : (r.withoutTerminal.given.any fun o => o.key = g.key) =
      r.given.any fun o => o.key = g.key := Given.has_withoutTerminal hg r.given
  unfold add
  rw [hany]
  split
  · rfl
  · split
    · rfl
    · split
      · rfl
      · simp [withoutTerminal, Given.withoutTerminal, Except.map, hg]

theorem settle_withoutTerminal (hr : r.Usual) :
    r.withoutTerminal.settle = r.settle.map withoutTerminal := by
  unfold settle
  simp only [withoutTerminal]
  cases hp : r.pending with
  | none => simp [Except.map, withoutTerminal, hp]
  | some g => exact add_withoutTerminal { r with pending := none } (hr g hp)

theorem option_withoutTerminal (hr : r.Usual) {k : OptionKey} (hk : k ≠ .terminal)
    (value : Option String) :
    r.withoutTerminal.option k value = (r.option k value).map withoutTerminal := by
  unfold option
  rw [settle_withoutTerminal hr]
  cases r.settle with
  | error e => split <;> rfl
  | ok s =>
    simp only [Except.map]
    split
    · rfl
    · split
      · rfl
      · split
        · rfl
        · exact add_withoutTerminal s hk
    · exact add_withoutTerminal s hk
    · rfl

theorem pending_of_settle (h : r.settle = .ok s) : s.pending = none := by
  unfold settle at h
  split at h
  · next hp =>
    cases h
    exact hp
  · exact pending_of_add h

theorem settle_of_pending (h : r.pending = none) : r.settle = .ok r := by
  unfold settle
  rw [h]

theorem usual_of_pending (h : r.pending = none) : r.Usual := by
  intro g hg
  rw [h] at hg
  cases hg

theorem usual : Invariant Usual where
  add hr ha := by
    rw [Usual, pending_of_add ha]
    exact hr
  settled _ := usual_of_pending rfl
  begun harity _ := by
    rintro g ⟨⟩ rfl
    exact harity rfl
  continued {r g} _ hp hr := by
    rintro g' ⟨⟩
    exact hr g hp

theorem letters_withoutTerminal (hr : r.Usual) (cs : List Char) :
    r.withoutTerminal.letters cs = (r.letters cs).map withoutTerminal := by
  induction cs generalizing r with
  | nil => rfl
  | cons c cs ih =>
    unfold letters
    cases hk : OptionKey.ofShort? c with
    | none => rfl
    | some k =>
      have hne : k ≠ .terminal := by
        rintro rfl
        exact absurd (List.find?_some hk) (by simp [OptionKey.short?])
      simp only
      split
      · rw [option_withoutTerminal hr hne]
        cases ho : r.option k none with
        | error e => rfl
        | ok s => exact ih (usual.option hr ho)
      · exact option_withoutTerminal hr hne _

theorem value_withoutTerminal (r : Reading) (text : String) :
    r.withoutTerminal.value text = (r.value text).map withoutTerminal := by
  unfold value
  simp only [withoutTerminal]
  split
  · rfl
  · split <;> rfl

theorem end_withoutTerminal (hr : r.Usual) :
    r.withoutTerminal.settle.map (·.given) =
      (r.settle.map (·.given)).map Given.withoutTerminal := by
  rw [settle_withoutTerminal hr]
  cases r.settle <;> rfl

/-- The word is the option for the terminal. -/
def IsTerminal (word : String) : Prop := Word.ofText word = .long "stdout" none

theorem words_withoutTerminal (hr : r.Usual) {ws : List String} (h : ∀ w ∈ ws, ¬ IsTerminal w) :
    r.withoutTerminal.words ws = (r.words ws).map Given.withoutTerminal := by
  induction ws generalizing r with
  | nil => exact end_withoutTerminal hr
  | cons w ws ih =>
    have hrest : ∀ w ∈ ws, ¬ IsTerminal w := fun w hw => h w (List.mem_cons_of_mem _ hw)
    have hnot := h w List.mem_cons_self
    unfold words
    cases hw : Word.ofText w with
    | terminator =>
      cases ws with
      | nil => exact end_withoutTerminal hr
      | cons w' ws => rfl
    | long name value =>
      simp only
      cases hk : OptionKey.ofLong? name with
      | none => rfl
      | some k =>
        simp only
        by_cases hterminal : k = .terminal
        · -- the option with a value is refused at once
          have hname : name = "stdout" := by
            have hlong := List.find?_some hk
            rw [hterminal] at hlong
            simpa [OptionKey.long?, eq_comm] using hlong
          cases value with
          | none => exact absurd (by rw [IsTerminal, hw, hname]) hnot
          | some v =>
            rw [hterminal]
            rfl
        · rw [option_withoutTerminal hr hterminal]
          cases ho : r.option k value with
          | error e => rfl
          | ok s => exact ih (usual.option hr ho) hrest
    | short cs =>
      simp only
      rw [letters_withoutTerminal hr]
      cases ho : r.letters cs with
      | error e => rfl
      | ok s => exact ih (usual.letters hr ho) hrest
    | plain text =>
      simp only
      rw [value_withoutTerminal]
      cases ho : r.value text with
      | error e => rfl
      | ok s => exact ih (usual.value hr ho) hrest

/-! ## Leaving the option out -/

theorem not_has_of_add {g : Given} (hg : g.key = .terminal) (h : r.add g = .ok r') :
    Given.has r.given .terminal = false := by
  unfold add at h
  split at h
  · cases h
  · split at h
    · cases h
    · next honce =>
      rw [hg] at honce
      simpa [OptionKey.repeats, Given.has] using honce

/-- Where the option has led. -/
theorem exists_of_option_terminal (h : r.option .terminal none = .ok r') :
    ∃ s, r.settle = .ok s ∧ Given.has s.given .terminal = false ∧ r'.withoutTerminal = s ∧
      r'.Usual ∧ Given.has r'.given .terminal = true := by
  have hhas := has_of_option rfl h
  obtain ⟨s, hs, ⟨values, ha⟩ | ⟨harity, -⟩⟩ := cases_of_option h
  · have hnot := not_has_of_add rfl ha
    have hr' := usual_of_pending ((pending_of_add ha).trans (pending_of_settle hs))
    refine ⟨s, hs, hnot, ?_, hr', hhas⟩
    obtain ⟨given, pending⟩ := s
    have hgiven : Given.withoutTerminal r'.given = given := by
      have hbefore := Given.withoutTerminal_of_not_has hnot
      simp only [Given.withoutTerminal] at hbefore
      rw [given_of_add ha, Given.withoutTerminal, List.filter_append, hbefore]
      simp
    rw [withoutTerminal, hgiven, pending_of_add ha]
  · exact absurd rfl harity

/-- The option cannot be given again. -/
theorem not_terminal_of_words {ws : List String} (hr : Given.has r.given .terminal = true)
    (h : r.words ws = .ok gs) : ∀ w ∈ ws, ¬ IsTerminal w := by
  induction ws generalizing r with
  | nil => exact fun w hw => nomatch hw
  | cons w ws ih =>
    by_cases hw : Word.ofText w = .terminator
    · obtain ⟨rfl, -⟩ := words_terminator hw h
      intro v hv hterminal
      rw [List.mem_singleton.mp hv, IsTerminal, hw] at hterminal
      cases hterminal
    · obtain ⟨s, hkeeps, hwords, -⟩ := exists_words_cons h hw
      have hs : Given.has s.given .terminal = true :=
        has_of_prefix (hkeeps (given_remains r) List.prefix_rfl) hr
      intro v hv hterminal
      rcases List.mem_cons.mp hv with rfl | hv
      · unfold words at h
        rw [hterminal] at h
        have hk : OptionKey.ofLong? "stdout" = some .terminal := by decide
        simp only [hk] at h
        cases ho : r.option .terminal none with
        | error e => simp [ho] at h
        | ok q =>
          obtain ⟨s, hsettled, hnot, -⟩ := exists_of_option_terminal ho
          have hgiven := has_of_prefix ((given_remains r).settle List.prefix_rfl hsettled) hr
          rw [hnot] at hgiven
          cases hgiven
      · rw [hwords] at h
        exact ih hs h v hv hterminal

theorem ofText_ne_short_nil (word : String) : Word.ofText word ≠ .short [] := by
  unfold Word.ofText
  split <;> nofun

/-- Words that can be read once the option before them is complete complete it themselves. -/
theorem words_of_settle (hs : r.settle = .ok s) {ws : List String} (h : s.words ws = .ok gs) :
    r.words ws = .ok gs := by
  have hpending := pending_of_settle hs
  have hsettled := settle_of_pending hpending
  have hoption : ∀ k value, r.option k value = s.option k value := by
    intro k value
    unfold option
    rw [hs, hsettled]
  cases ws with
  | nil =>
    unfold words at h ⊢
    rwa [hs, ← hsettled]
  | cons w ws =>
    unfold words at h ⊢
    cases hw : Word.ofText w with
    | terminator =>
      simp only [hw] at h ⊢
      cases ws with
      | nil => rwa [hs, ← hsettled]
      | cons w' ws => cases h
    | long name value =>
      simp only [hw, hoption] at h ⊢
      exact h
    | short cs =>
      simp only [hw] at h ⊢
      cases cs with
      | nil => exact absurd hw (ofText_ne_short_nil w)
      | cons c cs =>
        unfold letters at h ⊢
        simp only [hoption]
        exact h
    | plain text =>
      simp only [hw, value, hpending] at h
      cases h

theorem words_without_terminal (hr : r.Usual) {before after : List String} {word : String}
    (hword : IsTerminal word) (h : r.words (before ++ word :: after) = .ok gs) :
    r.words (before ++ after) = .ok (Given.withoutTerminal gs) ∧ Given.has gs .terminal = true := by
  induction before generalizing r with
  | nil =>
    have hk : OptionKey.ofLong? "stdout" = some .terminal := by decide
    unfold IsTerminal at hword
    rw [List.nil_append, words.eq_def] at h
    simp only [hword, hk] at h
    cases ho : r.option .terminal none with
    | error e => simp [ho] at h
    | ok t =>
      simp only [ho] at h
      obtain ⟨s, hs, -, hts, ht, hhas⟩ := exists_of_option_terminal ho
      have hafter := words_withoutTerminal ht (not_terminal_of_words hhas h)
      rw [hts, h] at hafter
      exact ⟨words_of_settle hs hafter, has_of_prefix (given_prefix_of_words h) hhas⟩
  | cons w before ih =>
    have hne : Word.ofText w ≠ .terminator := by
      intro hw
      rw [List.cons_append, words.eq_def] at h
      simp only [hw] at h
      cases before <;> cases h
    obtain ⟨s, hkeeps, hwords, -⟩ := exists_words_cons h hne
    rw [List.cons_append, hwords] at h ⊢
    exact ih (hkeeps usual hr) h

end Reading

/-- A command line for standard output is one for a file in the working directory without its option. -/
theorem Request.ofArguments_erase_stdout {args : List String} {i : Invocation}
    (ha : ofArguments args = .ok (.listing i)) (hmem : "--stdout" ∈ args) :
    i.destination = .terminal ∧
      ofArguments (args.erase "--stdout") = .ok (.listing { i with destination := .file "." false }) := by
  obtain ⟨before, after, -, hsplit, herase⟩ := List.exists_erase_eq hmem
  have hspelled : spelled "--stdout" = "--stdout" := by decide
  have hword : Reading.IsTerminal "--stdout" := by
    unfold Reading.IsTerminal
    decide +kernel
  obtain ⟨gs, hr, hi⟩ := ofArguments_eq_listing_iff.mp ha
  rw [hsplit, List.map_append, List.map_cons, hspelled] at hr
  obtain ⟨hwords, hhas⟩ := Reading.words_without_terminal (by rintro g ⟨⟩) hword hr
  obtain ⟨hdestination, hinvocation⟩ := Given.invocation_withoutTerminal hhas hi
  refine ⟨hdestination, ofArguments_eq_listing_iff.mpr ⟨_, ?_, hinvocation⟩⟩
  rw [herase, List.map_append]
  exact hwords

end ClassListing
