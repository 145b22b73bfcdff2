import ClassListing.Proofs.Listing.History

/-!
# Recording a listing

A resolver can record the names looked up and a sink the calls made, whatever comes of them. A listing
that is recorded works as before, and the records say what its history says.
-/

namespace ClassListing

set_option autoImplicit false

variable {ρ σ : Type}

/-- The same resolver with a record of the names looked up. -/
def Resolver.recorded (r : Resolver ρ) : Resolver (ρ × List String) where
  resolve name s :=
    let (c, t) := r.resolve name s.1
    (c, (t, s.2 ++ [name]))
  setClassPath paths s := (r.setClassPath paths s.1, s.2)

def Session.recording (s : Session ρ) (names : List String) : Session (ρ × List String) :=
  ⟨(s.state, names), s.resolved, s.failed⟩

def Progress.recording (p : Progress ρ σ) (names : List String) (calls : List Sink.Call) :
    Progress (ρ × List String) (σ × List Sink.Call) :=
  ⟨p.session.recording names, (p.sink, calls), p.summary, p.host⟩

theorem Session.resolve_recording (s : Session ρ) (r : Resolver ρ) (name : String)
    (names : List String) :
    (s.recording names).resolve r.recorded name =
      ((s.resolve r name).1, (s.resolve r name).2.recording (names ++ [name])) := by
  rcases hr : r.resolve name s.state with ⟨c, t⟩
  cases c <;> simp [resolve, Resolver.recorded, recording, hr]

namespace Job

variable {j : Job ρ σ}

def recorded (j : Job ρ σ) : Job (ρ × List String) (σ × List Sink.Call) :=
  ⟨j.resolver.recorded, j.formatter, j.sink.recorded⟩

theorem put_recording (text : String) (p : Progress ρ σ) (names : List String)
    (calls : List Sink.Call) :
    j.recorded.put text (p.recording names calls) =
      ((j.put text p).1, (j.put text p).2.recording names (calls ++ [.write text])) := rfl

theorem emit_recording (name : String) (c : JavaClass) (p : Progress ρ σ) (names : List String)
    (calls : List Sink.Call) :
    j.recorded.emit name c (p.recording names calls) =
      ((j.emit name c p).1, (j.emit name c p).2.recording names
        (calls ++ (j.emitSteps c p).filterMap Step.call?)) := by
  unfold emitSteps emit put
  cases hf : j.formatter.format c with
  | error e => simp [recorded, hf, Step.call?, Progress.recording]
  | ok text =>
    cases text with
    | none => simp [recorded, hf, Step.call?, Progress.recording]
    | some text =>
      rcases hw : j.sink.write text p.sink p.host with ⟨r, t, host⟩
      cases r <;>
      · simp [recorded, hf, hw, Sink.recorded, Progress.recording]
        rfl

theorem visit_recording (name : String) (p : Progress ρ σ) (names : List String)
    (calls : List Sink.Call) :
    j.recorded.visit name (p.recording names calls) =
      ((j.visit name p).1, (j.visit name p).2.recording (names ++ [name])
        (calls ++ (j.visitSteps name p).filterMap Step.call?)) := by
  have hr := Session.resolve_recording p.session j.resolver name names
  have hr' : (p.recording names calls).session.resolve j.recorded.resolver name = _ := hr
  unfold visit visitSteps
  rw [hr']
  rcases p.session.resolve j.resolver name with ⟨r, session⟩
  cases r with
  | ok c => exact emit_recording name c { p with session } (names ++ [name]) calls
  | error e => cases he : e.isRecoverable <;> simp [he, Step.call?, Progress.recording]

theorem name?_emitSteps (c : JavaClass) (p : Progress ρ σ) :
    (j.emitSteps c p).filterMap Step.name? = [] := by
  unfold emitSteps
  split <;> simp [Step.name?]

theorem name?_visitSteps (name : String) (p : Progress ρ σ) :
    (j.visitSteps name p).filterMap Step.name? = [name] := by
  unfold visitSteps
  split <;> simp [Step.name?, name?_emitSteps]

theorem visitAll_recording (f : Feed) (p : Progress ρ σ) (names : List String)
    (calls : List Sink.Call) :
    j.recorded.visitAll f (p.recording names calls) =
      ((j.visitAll f p).1, (j.visitAll f p).2.recording
        (names ++ (j.visitAllSteps f p).filterMap Step.name?)
        (calls ++ (j.visitAllSteps f p).filterMap Step.call?)) := by
  -- only the records differ, so the recorded listing takes the same branch at every name
  fun_induction j.visitAll f p generalizing names calls with
  | case1 f p g host hn =>
    have hn' : f.next (p.recording names calls).host = (none, g, host) := hn
    rw [visitAll, hn', visitAllSteps, hn]
    simp [Progress.recording]
  | case2 f p name g host hn e q hv =>
    have hn' : f.next (p.recording names calls).host = (some name, g, host) := hn
    have hr := visit_recording (j := j) name { p with host } names calls
    have hs := name?_visitSteps (j := j) name { p with host }
    rw [hv] at hr
    have hr' : j.recorded.visit name { p.recording names calls with host } = _ := hr
    rw [visitAll, hn', visitAllSteps, hn]
    simp only [hr', hv, hs, List.append_nil]
  | case3 f p name g host hn q hv ih =>
    have hn' : f.next (p.recording names calls).host = (some name, g, host) := hn
    have hr := visit_recording (j := j) name { p with host } names calls
    have hs := name?_visitSteps (j := j) name { p with host }
    rw [hv] at hr
    have hr' : j.recorded.visit name { p.recording names calls with host } = _ := hr
    rw [visitAll, hn', visitAllSteps, hn]
    simp only [hr', hv, hs, ih, List.filterMap_append, List.append_assoc]

theorem body_recording (f : Feed) (p : Progress ρ σ) (names : List String)
    (calls : List Sink.Call) :
    j.recorded.body f (p.recording names calls) =
      ((j.body f p).1, (j.body f p).2.recording
        (names ++ (j.bodySteps f p).filterMap Step.name?)
        (calls ++ (j.bodySteps f p).filterMap Step.call?)) := by
  have hp := put_recording (j := j) j.formatter.header p names calls
  have hp' : j.recorded.put j.recorded.formatter.header (p.recording names calls) = _ := hp
  unfold body bodySteps
  rw [hp']
  by_cases hh : j.formatter.header = ""
  · have hh' : j.recorded.formatter.header = "" := hh
    rw [if_pos hh, if_pos hh, if_pos hh']
    exact visitAll_recording f p names calls
  · have hh' : ¬j.recorded.formatter.header = "" := hh
    rw [if_neg hh, if_neg hh, if_neg hh']
    rcases j.put j.formatter.header p with ⟨r, q⟩
    cases r with
    | error e => simp [List.filterMap_cons, Step.name?, Step.call?]
    | ok u => simp [visitAll_recording, List.filterMap_cons, Step.name?, Step.call?]

/-- However the body ends, the sink is closed once. -/
theorem whileOpen_recording (tag : String) (f : Feed) (p : Progress ρ σ) (names : List String)
    (calls : List Sink.Call) :
    j.recorded.whileOpen tag f (p.recording names calls) =
      ((j.whileOpen tag f p).1, (j.whileOpen tag f p).2.recording
        (names ++ (j.bodySteps f p).filterMap Step.name?)
        (calls ++ (j.bodySteps f p).filterMap Step.call? ++ [.release])) := by
  unfold whileOpen
  rw [body_recording]
  rcases j.body f p with ⟨r, q⟩
  rcases hr : j.sink.release q.sink q.host with ⟨c, sink, host⟩
  cases r with
  | error e =>
    cases c <;> simp [recorded, Sink.recorded, Sink.abandon, hr, Progress.recording]
  | ok u => cases c <;> simp [recorded, Sink.recorded, hr, Progress.recording]

/-- What is recorded during a listing is what its history says, and recording changes nothing. -/
theorem run_recording (source : Source) (session : Session ρ) (sink : σ) (h : Host) :
    j.recorded.run source (session.recording []) (sink, []) h =
      ((j.run source session sink h).1, (j.run source session sink h).2.1,
        (j.run source session sink h).2.2.recording
          ((j.history source session sink h).filterMap Step.name?)
          ((j.history source session sink h).filterMap Step.call?)) := by
  unfold run history
  rcases source.feed h with ⟨r, source', host⟩
  cases r with
  | error e => rfl
  | ok feed =>
    rcases ha : j.sink.acquire sink host with ⟨r, sink', host'⟩
    have ha' : j.recorded.sink.acquire (sink, []) host = (r, (sink', [.acquire]), host') := by
      simp [recorded, Sink.recorded, ha]
    simp only [ha', ha]
    cases r with
    | error e => rfl
    | ok u =>
      have hw := whileOpen_recording (j := j) source'.tag feed ⟨session, sink', .zero, host'⟩ []
        [.acquire]
      have hw' : j.recorded.whileOpen source'.tag feed
        ⟨session.recording [], (sink', [.acquire]), .zero, host'⟩ = _ := hw
      simp [hw', List.filterMap_cons, Step.name?, Step.call?]

end Job

end ClassListing
