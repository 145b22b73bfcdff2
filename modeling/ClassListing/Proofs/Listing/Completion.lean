import ClassListing.Proofs.Catalog.Listing

/-!
# Listings that come to their end

A listing comes to its end from any source that can be read, if every name has a fate that lets it go on and
the sink works. Where the names come from, and how many there are, does not matter.
-/

namespace ClassListing

set_option autoImplicit false

variable {ρ σ : Type}

namespace Job

variable {j : Job ρ σ} {Open : σ → Prop}

/-- No name stops the listing, whatever the look-ups before it have left. -/
def NeverStops (j : Job ρ σ) : Prop :=
  ∀ name state, (j.formatter.fate (j.resolver.resolve name state).1).failure? = none

theorem visit_completes (hk : j.sink.Reliable fun s _ => Open s) (hj : j.NeverStops) (name : String)
    {p : Progress ρ σ} (hp : Open p.sink) :
    (j.visit name p).1 = .ok () ∧ Open (j.visit name p).2.sink := by
  obtain ⟨⟨hfail, -, hopen, -⟩, -⟩ := visit_bringsAbout hk name hp
  obtain ⟨u, hok⟩ := exists_ok_of_failure (hfail.trans (hj name p.session.state))
  exact ⟨hok, hopen⟩

theorem visitAll_completes (hk : j.sink.Reliable fun s _ => Open s) (hj : j.NeverStops) (f : Feed)
    {p : Progress ρ σ} (hp : Open p.sink) :
    (j.visitAll f p).1 = .ok () ∧ Open (j.visitAll f p).2.sink := by
  fun_induction j.visitAll f p with
  | case1 f p g host hn => exact ⟨rfl, hp⟩
  | case2 f p name g host hn e q hv =>
    have hok := (visit_completes hk hj name (p := { p with host }) hp).1
    rw [hv] at hok
    cases hok
  | case3 f p name g host hn q hv ih =>
    have hopen := (visit_completes hk hj name (p := { p with host }) hp).2
    rw [hv] at hopen
    exact ih hopen

theorem body_completes (hk : j.sink.Reliable fun s _ => Open s) (hj : j.NeverStops) (f : Feed)
    {p : Progress ρ σ} (hp : Open p.sink) :
    (j.body f p).1 = .ok () ∧ Open (j.body f p).2.sink := by
  obtain ⟨q, hq, -, -, hbody, -⟩ := body_bringsAbout hk f hp
  rw [hbody]
  exact visitAll_completes hk hj f hq

theorem run_completes (hk : j.sink.Reliable fun s _ => Open s) (hj : j.NeverStops) {source : Source}
    (session : Session ρ) {sink : σ} {h : Host} {feed : Feed} (hf : (source.feed h).1 = .ok feed)
    (ha : (j.sink.acquire sink (source.feed h).2.2).1 = .ok ())
    (ho : Open (j.sink.acquire sink (source.feed h).2.2).2.1) :
    ∃ summary, (j.run source session sink h).1 = .ok summary := by
  obtain ⟨hrun, -⟩ := run_of_acquire session hf ha
  obtain ⟨hbody, hopen⟩ := body_completes hk hj feed
    (p := ⟨session, _, .zero, (j.sink.acquire sink (source.feed h).2.2).2.2⟩) ho
  obtain ⟨hend, -⟩ := whileOpen_of_good hk (source.feed h).2.1.tag hopen
  rw [hrun, hend, hbody]
  exact ⟨_, rfl⟩

end Job

namespace Catalog

theorem isRecoverable_of_resolve {c : Catalog} {name : String} {e : Error}
    (h : c.resolve name = .error e) : e.isRecoverable = true := by
  unfold resolve at h
  cases hr : c.records[name]? with
  | none =>
    rw [hr] at h
    cases h
    rfl
  | some r =>
    rw [hr] at h
    cases hc : r.toClass with
    | ok view => simp [hc] at h
    | error m =>
      simp only [hc, Except.error.injEq] at h
      rw [← h]
      rfl

/-- A class that is not in the catalog, or is malformed there, is skipped; any other is rendered. -/
theorem neverStops {σ : Type} {f : Formatter} (hf : ∀ c, ∃ text, f.format c = .ok text)
    (k : Sink σ) : Job.NeverStops ⟨resolver, f, k⟩ := by
  intro name c
  simp only [resolver]
  cases hr : c.resolve name with
  | error e =>
    rw [Formatter.fate_of_recoverable (isRecoverable_of_resolve hr)]
    rfl
  | ok view => exact (Formatter.found_of_exists_format (hf view)).2

end Catalog

end ClassListing
