import ClassListing.Proofs.Listing.Recording

/-!
# Closing the sink

A listing opens its sink once the names are there, and an open sink is closed exactly once, as the last
thing that is done to it. The first failure is the one reported, whichever step it comes from.
-/

namespace ClassListing

set_option autoImplicit false

variable {ρ σ : Type}

/-- After a failure there is nothing but closing, and nothing after that. -/
structure Orderly (steps : List Step) : Prop where
  failed : ∀ before e after, steps = before ++ e :: after → e.failure?.isSome →
    ∀ e' ∈ after, ∃ c, e' = .release c
  closed : ∀ before c after, steps = before ++ .release c :: after → after = []

theorem Proceeds.orderly {steps : List Step} {r : Option Error} (h : Proceeds steps r)
    (hn : ∀ c, .release c ∉ steps) : Orderly steps where
  failed before e after hs he := by
    rw [hs] at h
    rw [h.eq_nil_of_failure he]
    simp
  closed before c after hs := by
    rw [hs] at hn
    exact absurd (List.mem_append_right _ (.head _)) (hn c)

theorem Proceeds.orderly_concat {steps : List Step} {r : Option Error} (h : Proceeds steps r)
    (hn : ∀ c, .release c ∉ steps) (last : Except Error Unit) :
    Orderly (steps ++ [.release last]) where
  failed before e after hs he := by
    rcases List.eq_nil_or_concat after with rfl | ⟨rest, x, rfl⟩
    · simp
    · rw [List.concat_eq_append, ← List.cons_append, ← List.append_assoc] at hs
      obtain ⟨rfl, hx⟩ := List.append_inj' hs rfl
      cases hx
      simp [h.eq_nil_of_failure he]
  closed before c after hs := by
    rcases List.eq_nil_or_concat after with rfl | ⟨rest, x, rfl⟩
    · rfl
    · rw [List.concat_eq_append, ← List.cons_append, ← List.append_assoc] at hs
      obtain ⟨rfl, -⟩ := List.append_inj' hs rfl
      exact absurd (List.mem_append_right _ (.head _)) (hn c)

/-! ## What is done while the sink is open -/

namespace Job

variable {j : Job ρ σ}

theorem inside_emitSteps (c : JavaClass) (p : Progress ρ σ) : (j.emitSteps c p).all Step.inside := by
  unfold emitSteps
  split <;> rfl

theorem inside_visitSteps (name : String) (p : Progress ρ σ) :
    (j.visitSteps name p).all Step.inside := by
  unfold visitSteps
  split
  · exact inside_emitSteps _ p
  · rfl

theorem inside_visitAllSteps (f : Feed) (p : Progress ρ σ) :
    (j.visitAllSteps f p).all Step.inside := by
  fun_induction j.visitAllSteps f p with
  | case1 => rfl
  | case2 f p name g host hn ih =>
    rw [List.all_append, inside_visitSteps, Bool.true_and]
    rcases j.visit name { p with host } with ⟨r, q⟩
    cases r with
    | error e => rfl
    | ok u => exact ih q

theorem inside_bodySteps (f : Feed) (p : Progress ρ σ) : (j.bodySteps f p).all Step.inside := by
  unfold bodySteps
  split
  · exact inside_visitAllSteps f p
  · rcases j.put j.formatter.header p with ⟨r, q⟩
    cases r with
    | error e => rfl
    | ok u => exact inside_visitAllSteps f q

theorem history_of_acquire {source : Source} {sink : σ} {h : Host} {feed : Feed}
    (session : Session ρ) (hf : (source.feed h).1 = .ok feed)
    (ha : (j.sink.acquire sink (source.feed h).2.2).1 = .ok ()) :
    let opened := (j.sink.acquire sink (source.feed h).2.2).2
    let p : Progress ρ σ := ⟨session, opened.1, .zero, opened.2⟩
    ∃ c, j.history source session sink h =
      .names (.ok feed) :: .acquire (.ok ()) :: (j.bodySteps feed p ++ [.release c]) := by
  unfold history
  rcases hs : source.feed h with ⟨r, source', host⟩
  rw [hs] at hf ha
  rcases ho : j.sink.acquire sink host with ⟨o, sink', host'⟩
  simp only [ho] at ha
  cases hf
  cases ha
  simp only [ho]
  exact ⟨_, rfl⟩

theorem calls_of_acquire {source : Source} {sink : σ} {h : Host} {feed : Feed}
    (session : Session ρ) (hf : (source.feed h).1 = .ok feed)
    (ha : (j.sink.acquire sink (source.feed h).2.2).1 = .ok ()) :
    (j.history source session sink h).filterMap Step.call? = .acquire ::
      (((j.history source session sink h).filterMap Step.text?).map .write ++ [.release]) := by
  obtain ⟨c, hs⟩ := history_of_acquire session hf ha
  rw [hs]
  simp [List.filterMap_cons, Step.call?, Step.text?, Step.filterMap_call? (inside_bodySteps feed _)]

theorem history_of_acquire_error {source : Source} {sink : σ} {h : Host} {feed : Feed} {e : Error}
    (session : Session ρ) (hf : (source.feed h).1 = .ok feed)
    (ha : (j.sink.acquire sink (source.feed h).2.2).1 = .error e) :
    j.history source session sink h = [.names (.ok feed), .acquire (.error e)] := by
  unfold history
  rcases hs : source.feed h with ⟨r, source', host⟩
  rw [hs] at hf ha
  rcases ho : j.sink.acquire sink host with ⟨o, sink', host'⟩
  simp only [ho] at ha
  cases hf
  cases ha
  simp only [ho]

theorem history_of_names_error {source : Source} {h : Host} {e : Error} (session : Session ρ)
    (sink : σ) (hf : (source.feed h).1 = .error e) :
    j.history source session sink h = [.names (.error e)] := by
  unfold history
  rcases hs : source.feed h with ⟨r, source', host⟩
  rw [hs] at hf
  cases hf
  rfl

/-- A listing does nothing to its sink if there are no names, and opens it once otherwise. An open sink is
written to and then closed, once and at last, whatever fails. After a failure nothing is done but
closing, and the first failure is the one reported. -/
theorem run_closes_once (j : Job ρ σ) (source : Source) (session : Session ρ) (sink : σ) (h : Host) :
    let steps := j.history source session sink h
    let r := j.recorded.run source (session.recording []) (sink, []) h
    let calls := r.2.2.sink.2
    let names := (source.feed h).1
    let opened := (j.sink.acquire sink (source.feed h).2.2).1
    (r.1 = (j.run source session sink h).1 ∧ calls = steps.filterMap Step.call?) ∧
      (calls = [] ↔ (failure names).isSome) ∧
      (calls = [.acquire] ↔ failure names = none ∧ (failure opened).isSome) ∧
      (failure names = none → failure opened = none →
        ∃ texts : List String, calls = .acquire :: (texts.map .write ++ [.release])) ∧
      Orderly steps ∧
      failure r.1 = steps.findSome? Step.failure? := by
  intro steps r calls names opened
  have hr : r = _ := run_recording source session sink h
  have hcalls : calls = steps.filterMap Step.call? := congrArg (fun x => x.2.2.sink.2) hr
  have hres : r.1 = (j.run source session sink h).1 := congrArg (fun x => x.1) hr
  have hfail : failure r.1 = steps.findSome? Step.failure? := by rw [hres, failure_run]
  cases hn : names with
  | error e =>
    have hs : steps = [.names (.error e)] := history_of_names_error session sink hn
    have hc : calls = [] := by rw [hcalls, hs]; rfl
    have ho : Orderly steps := hs ▸ (Proceeds.single _).orderly (by simp)
    exact ⟨⟨hres, hcalls⟩, by simp [hc, failure], by simp [hc, failure], by simp [failure], ho,
      hfail⟩
  | ok feed =>
    cases ha : opened with
    | error e =>
      have hs : steps = [.names (.ok feed), .acquire (.error e)] :=
        history_of_acquire_error session hn ha
      have hc : calls = [.acquire] := by rw [hcalls, hs]; rfl
      have ho : Orderly steps := hs ▸ ((Proceeds.single _).cons rfl).orderly (by simp)
      exact ⟨⟨hres, hcalls⟩, by simp [hc, failure], by simp [hc, failure], by simp [failure], ho,
        hfail⟩
    | ok u =>
      have hc := hcalls.trans (calls_of_acquire session hn ha)
      obtain ⟨c, hs⟩ := history_of_acquire session hn ha
      generalize (⟨session, _, .zero, _⟩ : Progress ρ σ) = p at hs
      have hi := inside_bodySteps (j := j) feed p
      have hb := proceeds_body (j := j) feed p
      generalize j.bodySteps feed p = body at hs hi hb
      -- all steps but the last proceed to the first failure, and none of them closes
      have hs : steps = (.names (.ok feed) :: .acquire (.ok ()) :: body) ++ [.release c] := hs
      have hne : ∀ c, Step.release c ∉ .names (.ok feed) :: .acquire (.ok ()) :: body := by
        intro c hc
        simp only [List.mem_cons, reduceCtorEq, false_or] at hc
        cases List.all_eq_true.mp hi _ hc
      have ho : Orderly steps := hs ▸ ((hb.cons rfl).cons rfl).orderly_concat hne c
      exact ⟨⟨hres, hcalls⟩, by simp [hc, failure], by simp [hc, failure], fun _ _ => ⟨_, hc⟩, ho,
        hfail⟩

end Job

end ClassListing
