import ClassListing.Proofs.Listing.Fate

/-!
# What a listing comes to

With a sink that works a listing brings about the fates of its names up to the first that stops it: it
writes their texts, looks up no further name, and reports the failure or how many names had which
fate.
-/

namespace ClassListing

set_option autoImplicit false

variable {ρ σ : Type}

namespace Job

variable {j : Job ρ σ} {Good : σ → Host → Prop}

/-! ## All names -/

def fates (j : Job ρ σ) (names : List String) (state : ρ) : List Fate :=
  (j.resolver.lookups names state).map j.formatter.fate

/-- The place of the first name that stops the listing, or the end. -/
def stop (j : Job ρ σ) (names : List String) (state : ρ) : Nat :=
  (j.fates names state).findIdx Fate.stops

theorem fates_cons (name : String) (names : List String) (state : ρ) :
    j.fates (name :: names) state = j.formatter.fate (j.resolver.resolve name state).1 ::
      j.fates names (j.resolver.resolve name state).2 := rfl

theorem stop_of_failure {name : String} {state : ρ} {e : Error} (names : List String)
    (h : (j.formatter.fate (j.resolver.resolve name state).1).failure? = some e) :
    j.stop (name :: names) state = 0 := by
  simp [stop, fates_cons, List.findIdx_cons, Fate.stops, h]

theorem stop_of_no_failure {name : String} {state : ρ} (names : List String)
    (h : (j.formatter.fate (j.resolver.resolve name state).1).failure? = none) :
    j.stop (name :: names) state = j.stop names (j.resolver.resolve name state).2 + 1 := by
  simp [stop, fates_cons, List.findIdx_cons, Fate.stops, h]

/-- A part of a listing brings about the fates of names up to the first that stops it. -/
structure BringsAboutAll (j : Job ρ σ) (Good : σ → Host → Prop) (xs : List String)
    (steps : List Step) (p : Progress ρ σ) (r : Except Error Unit × Progress ρ σ) : Prop where
  failure : failure r.1 = (j.fates xs p.session.state).findSome? Fate.failure?
  texts : steps.filterMap Step.text? =
    ((j.fates xs p.session.state).take (j.stop xs p.session.state)).filterMap Fate.text?
  names : steps.filterMap Step.name? = xs.take (j.stop xs p.session.state + 1)
  good : Good r.2.sink r.2.host
  summary : r.2.summary =
    ((j.fates xs p.session.state).take (j.stop xs p.session.state + 1)).foldl Summary.count p.summary
  resolved : r.2.session.resolved = p.session.resolved +
    ((j.resolver.lookups xs p.session.state).take (j.stop xs p.session.state + 1)).countP
      (ClassListing.failure · = none)
  failed : r.2.session.failed = p.session.failed +
    ((j.resolver.lookups xs p.session.state).take (j.stop xs p.session.state + 1)).countP
      (ClassListing.failure · ≠ none)

theorem visitAll_bringsAbout (hk : j.sink.Reliable Good) (names : List String) {f : Feed}
    (hf : f.Gives Good names) {p : Progress ρ σ} (hp : Good p.sink p.host) :
    BringsAboutAll j Good names (j.visitAllSteps f p) p (j.visitAll f p) := by
  induction names generalizing f p with
  | nil =>
    obtain ⟨hn, hg⟩ := hf _ _ hp
    rcases hx : f.next p.host with ⟨x, g, host⟩
    rw [hx] at hn hg
    cases hn
    rw [visitAll, hx, visitAllSteps, hx]
    exact ⟨rfl, rfl, rfl, hg, rfl, rfl, rfl⟩
  | cons name names ih =>
    obtain ⟨hn, hg, hrest⟩ := hf _ _ hp
    rcases hx : f.next p.host with ⟨x, g, host⟩
    rw [hx] at hn hg hrest
    cases hn
    obtain ⟨⟨hfail, htexts, hgood, hsum⟩, hsess⟩ :=
      visit_bringsAbout hk name (p := { p with host }) hg
    have hnames := name?_visitSteps (j := j) name { p with host }
    have hcount := Session.resolve_counts p.session j.resolver name
    rw [visitAll, hx, visitAllSteps, hx]
    simp only
    rcases hv : j.visit name { p with host } with ⟨r, q⟩
    rw [hv] at hfail hgood hsum hsess
    simp only [hcount] at hsess
    cases r with
    | error e =>
      have hstop := stop_of_failure (j := j) names hfail.symm
      have htext := Fate.text?_of_failure hfail.symm
      -- the first failure is here, so of the rest nothing is written, looked up or counted
      simp only [List.append_nil]
      refine ⟨?_, ?_, ?_, hgood, ?_, ?_, ?_⟩
      · rw [fates_cons, List.findSome?_cons, ← hfail]
        rfl
      · rw [hstop, htexts, htext]
        rfl
      · rw [hstop, hnames]
        rfl
      · rw [hstop, hsum]
        rfl
      · rw [hstop, hsess]
        rfl
      · rw [hstop, hsess]
        rfl
    | ok u =>
      have hstop := stop_of_no_failure (j := j) names hfail.symm
      -- the rest goes on from the state that this look-up has left
      have hstate : q.session.state = (j.resolver.resolve name p.session.state).2 := by rw [hsess]
      obtain ⟨hfail', htexts', hnames', hgood', hsum', hres', hfld'⟩ := ih hrest hgood
      rw [hstate] at hfail' htexts' hnames' hsum' hres' hfld'
      refine ⟨?_, ?_, ?_, hgood', ?_, ?_, ?_⟩
      · rw [fates_cons, List.findSome?_cons, ← hfail, hfail']
        rfl
      · rw [hstop, List.filterMap_append, htexts, htexts', fates_cons, List.take_succ_cons,
          List.filterMap_cons]
        cases (j.formatter.fate (j.resolver.resolve name p.session.state).1).text? <;> rfl
      · rw [hstop, List.filterMap_append, hnames, hnames']
        rfl
      · rw [hstop, hsum', hsum]
        rfl
      · rw [hstop, hres', hsess, Nat.add_assoc, ← List.countP_append]
        rfl
      · rw [hstop, hfld', hsess, Nat.add_assoc, ← List.countP_append]
        rfl

/-! ## The listing -/

theorem body_bringsAbout (hk : j.sink.Reliable Good) (f : Feed) {p : Progress ρ σ}
    (hp : Good p.sink p.host) :
    ∃ q, Good q.sink q.host ∧ q.session = p.session ∧ q.summary = p.summary ∧
      j.body f p = j.visitAll f q ∧
      (j.bodySteps f p).filterMap Step.text? =
        (if j.formatter.header = "" then [] else [j.formatter.header]) ++
          (j.visitAllSteps f q).filterMap Step.text? ∧
      (j.bodySteps f p).filterMap Step.name? = (j.visitAllSteps f q).filterMap Step.name? := by
  unfold body bodySteps
  by_cases hh : j.formatter.header = ""
  · simp only [hh, if_true]
    exact ⟨p, hp, rfl, rfl, rfl, rfl, rfl⟩
  · obtain ⟨hok, hg⟩ := hk.write j.formatter.header hp
    rcases hw : j.sink.write j.formatter.header p.sink p.host with ⟨r, t, host⟩
    rw [hw] at hok hg
    cases hok
    simp only [hh, if_false, put, hw]
    exact ⟨{ p with sink := t, host }, hg, rfl, rfl, rfl, rfl, rfl⟩

theorem whileOpen_of_good (hk : j.sink.Reliable Good) (tag : String) {f : Feed}
    {p : Progress ρ σ} (hg : Good (j.body f p).2.sink (j.body f p).2.host) :
    (j.whileOpen tag f p).1 = (j.body f p).1.map (fun _ => (j.body f p).2.summary) ∧
      (j.whileOpen tag f p).2.session = (j.body f p).2.session := by
  unfold whileOpen
  revert hg
  rcases j.body f p with ⟨r, q⟩
  intro hg
  cases r with
  | error e => exact ⟨rfl, rfl⟩
  | ok u =>
    have hr := hk.release hg
    rcases hc : j.sink.release q.sink q.host with ⟨c, sink, host⟩
    simp only [hc] at hr ⊢
    cases hr
    exact ⟨rfl, rfl⟩

theorem run_of_acquire {source : Source} {sink : σ} {h : Host} {feed : Feed}
    (session : Session ρ) (hf : (source.feed h).1 = .ok feed)
    (ha : (j.sink.acquire sink (source.feed h).2.2).1 = .ok ()) :
    let opened := (j.sink.acquire sink (source.feed h).2.2).2
    let p : Progress ρ σ := ⟨session, opened.1, .zero, opened.2⟩
    (j.run source session sink h).1 = (j.whileOpen (source.feed h).2.1.tag feed p).1 ∧
      (j.run source session sink h).2.2 = (j.whileOpen (source.feed h).2.1.tag feed p).2 := by
  unfold run
  rcases hs : source.feed h with ⟨r, source', host⟩
  rw [hs] at hf ha
  rcases ho : j.sink.acquire sink host with ⟨o, sink', host'⟩
  simp only [ho] at ha
  cases hf
  cases ha
  simp only [ho]
  exact ⟨trivial, trivial⟩

theorem length_fates (names : List String) (state : ρ) :
    (j.fates names state).length = names.length := by
  induction names generalizing state with
  | nil => rfl
  | cons name names ih => rw [fates_cons, List.length_cons, ih, List.length_cons]

/-- If nothing stops the listing, every name is found or skipped, and a class that is found is written
or has no text. -/
theorem counts_of_no_failure {fs : List Fate} (h : fs.findSome? Fate.failure? = none) :
    fs.countP Fate.found = fs.count .empty + fs.countP (·.text?.isSome) ∧
      fs.countP Fate.found + fs.count .skipped = fs.length := by
  induction fs with
  | nil => exact ⟨rfl, rfl⟩
  | cons f fs ih =>
    rw [List.findSome?_cons] at h
    cases f <;> simp_all [Fate.failure?, Fate.found, Fate.text?, List.countP_cons] <;> omega

theorem run_bringsAbout (hk : j.sink.Reliable Good) {source : Source} {session : Session ρ}
    {sink : σ} {h : Host} {feed : Feed} {names : List String} (hf : (source.feed h).1 = .ok feed)
    (hn : feed.Gives Good names) (ha : (j.sink.acquire sink (source.feed h).2.2).1 = .ok ())
    (hg : Good (j.sink.acquire sink (source.feed h).2.2).2.1
      (j.sink.acquire sink (source.feed h).2.2).2.2) :
    let fates := j.fates names session.state
    let k := j.stop names session.state
    let lookups := (j.resolver.lookups names session.state).take (k + 1)
    let r := j.run source session sink h
    let steps := j.history source session sink h
    failure r.1 = fates.findSome? Fate.failure? ∧
      (∀ s, r.1 = .ok s → s = (fates.take (k + 1)).foldl Summary.count .zero) ∧
      steps.filterMap Step.text? = (if j.formatter.header = "" then [] else [j.formatter.header]) ++
        (fates.take k).filterMap Fate.text? ∧
      steps.filterMap Step.name? = names.take (k + 1) ∧
      r.2.2.session.resolved = session.resolved + lookups.countP (failure · = none) ∧
      r.2.2.session.failed = session.failed + lookups.countP (failure · ≠ none) := by
  intro fates k lookups r steps
  obtain ⟨c, hs⟩ := history_of_acquire session hf ha
  obtain ⟨hrun, hprog⟩ := run_of_acquire session hf ha
  generalize hp : (⟨session, _, .zero, _⟩ : Progress ρ σ) = p at hs hrun hprog
  have hg' : Good p.sink p.host := hp ▸ hg
  obtain ⟨q, hq, hsession, hsummary, hbody, htexts, hnames⟩ := body_bringsAbout hk feed hg'
  obtain ⟨hfail, ht, hnm, hgood, hsum, hres, hfld⟩ := visitAll_bringsAbout hk names hn hq
  obtain ⟨hw, hws⟩ := whileOpen_of_good hk (source.feed h).2.1.tag (hbody ▸ hgood)
  have hstate : q.session = session := by rw [hsession, ← hp]
  have hzero : q.summary = .zero := by rw [hsummary, ← hp]
  rw [hbody] at hw hws
  rw [hstate] at hfail ht hnm hsum hres hfld
  rw [hzero] at hsum
  have hresult : r.1 = _ := hrun.trans hw
  have hsess : r.2.2.session = (j.visitAll feed q).2.session := (congrArg _ hprog).trans hws
  have hsteps : steps = _ := hs
  refine ⟨?_, ?_, ?_, ?_, by rw [hsess, hres], by rw [hsess, hfld]⟩
  · rw [hresult, ← hfail]
    cases (j.visitAll feed q).1 <;> rfl
  · intro s hrs
    rw [hresult] at hrs
    cases hv : (j.visitAll feed q).1 with
    | error e => simp [hv, Except.map] at hrs
    | ok u =>
      rw [hv] at hrs
      cases hrs
      exact hsum
  · rw [← ht, ← htexts, hsteps]
    simp [List.filterMap_cons, Step.text?]
  · rw [← hnm, ← hnames, hsteps]
    simp [List.filterMap_cons, Step.name?]

/-- A listing that nothing stops ends with a summary of its fates. -/
theorem exists_summary_of_no_failure (session : Session ρ) (hk : j.sink.Reliable Good)
    {source : Source} {sink : σ} {h : Host} {feed : Feed} {names : List String}
    (hf : (source.feed h).1 = .ok feed) (hn : feed.Gives Good names)
    (ha : (j.sink.acquire sink (source.feed h).2.2).1 = .ok ())
    (hg : Good (j.sink.acquire sink (source.feed h).2.2).2.1
      (j.sink.acquire sink (source.feed h).2.2).2.2)
    (hnone : (j.fates names session.state).findSome? Fate.failure? = none) :
    ∃ s, (j.run source session sink h).1 = .ok s ∧
      s.skipped = (j.fates names session.state).count .skipped ∧
      s.resolved = (j.fates names session.state).countP Fate.found := by
  obtain ⟨hfail, hsum, -⟩ :=
    @run_bringsAbout _ _ j Good hk source session sink h feed names hf hn ha hg
  obtain ⟨s, hok⟩ := exists_ok_of_failure (hfail.trans hnone)
  have hstop : j.stop names session.state = (j.fates names session.state).length := by
    refine List.findIdx_eq_length.mpr fun f hfate => ?_
    rw [Fate.stops, List.findSome?_eq_none_iff.mp hnone f hfate]
    rfl
  have hs := hsum s hok
  rw [hstop, List.take_of_length_le (Nat.le_succ _), Summary.foldl_count] at hs
  refine ⟨s, hok, ?_, ?_⟩
  · rw [hs]
    exact Nat.zero_add _
  · rw [hs]
    exact Nat.zero_add _

/-- What a listing of names says if the sink works. It writes the header, if there is one, and the texts
of the names before the first that stops it; it looks up no name after that one. If there is none, the
summary counts what became of the names, otherwise the error is that of the name. -/
theorem run_brings_about_fates (j : Job ρ σ) (session : Session ρ) {source : Source} {sink : σ}
    {h : Host} {feed : Feed} {names : List String} {Good : σ → Host → Prop}
    (hk : j.sink.Reliable Good) (hf : (source.feed h).1 = .ok feed) (hn : feed.Gives Good names)
    (ha : (j.sink.acquire sink (source.feed h).2.2).1 = .ok ())
    (hg : Good (j.sink.acquire sink (source.feed h).2.2).2.1
      (j.sink.acquire sink (source.feed h).2.2).2.2) :
    let fates := j.fates names session.state
    let k := fates.findIdx Fate.stops
    let lookups := (j.resolver.lookups names session.state).take (k + 1)
    let header := if j.formatter.header = "" then [] else [j.formatter.header]
    let r := j.recorded.run source (session.recording []) (sink, []) h
    r.1 = (j.run source session sink h).1 ∧
      r.2.2.sink.2 = .acquire ::
        ((header ++ (fates.take k).filterMap Fate.text?).map .write ++ [.release]) ∧
      r.2.2.session.state.2 = names.take (k + 1) ∧
      (∀ f, fates[k]? = some f → ∃ e, f.failure? = some e ∧ r.1 = .error e) ∧
      (k = names.length → ∃ s : Summary, r.1 = .ok s ∧ s.skipped = fates.count .skipped ∧
        s.empty = fates.count .empty ∧ s.written = fates.countP (·.text?.isSome) ∧
        s.resolved = s.empty + s.written ∧ s.resolved + s.skipped = names.length) ∧
      r.2.2.session.resolved = session.resolved + lookups.countP (failure · = none) ∧
      r.2.2.session.failed = session.failed + lookups.countP (failure · ≠ none) := by
  intro fates k lookups header
  rw [run_recording]
  intro r
  obtain ⟨hfail, hsum, htexts, hnames, hres, hfld⟩ := run_bringsAbout hk hf hn ha hg
  have hlen : fates.length = names.length := length_fates names session.state
  refine ⟨rfl, ?_, hnames, ?_, ?_, hres, hfld⟩
  · change (j.history source session sink h).filterMap Step.call? = _
    rw [calls_of_acquire session hf ha, htexts]
    rfl
  · intro f hfk
    obtain ⟨e, he, hfirst⟩ := Fate.findSome?_of_findIdx hfk
    exact ⟨e, he, eq_error_of_failure (hfail.trans hfirst)⟩
  · intro hend
    have hnone : fates.findSome? Fate.failure? = none :=
      Fate.findSome?_of_findIdx_eq_length (hend.trans hlen.symm)
    obtain ⟨hfound, htotal⟩ := counts_of_no_failure hnone
    obtain ⟨s, hok⟩ := exists_ok_of_failure (hfail.trans hnone)
    have hs := hsum s hok
    have hall : fates.take (k + 1) = fates := List.take_of_length_le (by omega)
    change s = (fates.take (k + 1)).foldl _ _ at hs
    rw [hall, Summary.foldl_count] at hs
    refine ⟨s, hok, ?_⟩
    rw [hs]
    simp only [Summary.zero, Nat.zero_add]
    exact ⟨trivial, trivial, trivial, hfound, htotal.trans hlen⟩

theorem terminal_listing_stops :
    let resolve (name : String) (u : Unit) : Except Error JavaClass × Unit :=
      (if name = "A" then .ok ⟨⟨"A", Modifiers.empty⟩, [], []⟩
        else if name = "B" then .error (.classNotFound "B")
        else .error (.file .notFound), u)
    let j : Job Unit TerminalSink :=
      ⟨⟨resolve, fun _ u => u⟩, ⟨"head", fun _ => .ok (some "text")⟩, TerminalSink.sink⟩
    let r := j.recorded.run (.list ["A", "B", "C", "A"]) ((Session.start ()).recording [])
      (TerminalSink.closed, []) (Host.ofDisk (.empty []) [])
    r.2.2.sink.2 = [.acquire, .write "head", .write "text", .release] ∧
      r.2.2.session.state.2 = ["A", "B", "C"] ∧ r.1 = .error (.file .notFound) := by
  intro resolve j r
  let names := ["A", "B", "C", "A"]
  have hf : (Source.feed (.list names) (Host.ofDisk (.empty []) [])).1 = .ok (.names names) := rfl
  obtain ⟨-, hcalls, hnames, hstop, -⟩ := run_brings_about_fates j (Session.start ())
    TerminalSink.reliable hf (Feed.gives_names _ names)
    (rfl : (TerminalSink.acquire TerminalSink.closed _).1 = .ok ()) rfl
  obtain ⟨e, he, hr⟩ := hstop (.unresolved (.file .notFound)) (by decide)
  cases he
  exact ⟨hcalls, hnames, hr⟩

end Job

end ClassListing
