import ClassListing.Run

/-!
# The history of a listing

A history has the steps of a listing in the order in which they are taken, each with what came of it. A
listing stops at the first step that fails, apart from closing the sink. What a sink and a resolver
record during a listing is what the history says.
-/

namespace ClassListing

set_option autoImplicit false

variable {ρ σ β : Type}

def failure : Except Error β → Option Error
  | .ok _ => none
  | .error e => some e

theorem eq_error_of_failure {r : Except Error β} {e : Error} (h : failure r = some e) :
    r = .error e := by
  cases r <;> cases h
  rfl

theorem exists_ok_of_failure {r : Except Error β} (h : failure r = none) : ∃ x, r = .ok x := by
  cases r with
  | ok x => exact ⟨x, rfl⟩
  | error e => cases h

/-! ## Steps -/

inductive Step where
  | names (r : Except Error Feed)
  | acquire (r : Except Error Unit)
  | resolve (name : String) (r : Except Error JavaClass)
  | format (c : JavaClass) (r : Except Error (Option String))
  | write (text : String) (r : Except Error Unit)
  | release (r : Except Error Unit)

namespace Step

/-- Why a step ends a listing: a class that cannot be looked up may be skipped. -/
def failure? : Step → Option Error
  | names r => failure r
  | acquire r => failure r
  | resolve _ r => (failure r).filter (!·.isRecoverable)
  | format _ r => failure r
  | write _ r => failure r
  | release r => failure r

def call? : Step → Option Sink.Call
  | acquire _ => some .acquire
  | write text _ => some (.write text)
  | release _ => some .release
  | _ => none

def text? : Step → Option String
  | write text _ => some text
  | _ => none

def inside : Step → Bool
  | resolve .. => true
  | format .. => true
  | write .. => true
  | _ => false

def name? : Step → Option String
  | resolve name _ => some name
  | _ => none

theorem filterMap_call? {steps : List Step} (h : steps.all inside) :
    steps.filterMap call? = (steps.filterMap text?).map .write := by
  induction steps with
  | nil => rfl
  | cons e steps ih =>
    rw [List.all_cons, Bool.and_eq_true] at h
    cases e <;> simp_all [List.filterMap_cons, call?, text?, inside]

end Step

/-- Steps that stop at the first failure, which is the one given. -/
structure Proceeds (steps : List Step) (r : Option Error) : Prop where
  failure : steps.findSome? Step.failure? = r
  before : ∀ e ∈ steps.dropLast, e.failure? = none

namespace Proceeds

variable {steps more : List Step} {r : Option Error}

theorem nil : Proceeds [] none := ⟨rfl, by simp⟩

theorem single (e : Step) : Proceeds [e] e.failure? :=
  ⟨by cases h : e.failure? <;> simp [h], by simp⟩

theorem append (h : Proceeds steps none) (h' : Proceeds more r) : Proceeds (steps ++ more) r := by
  have hs := List.findSome?_eq_none_iff.mp h.failure
  refine ⟨?_, ?_⟩
  · rw [List.findSome?_append, h.failure, Option.none_or, h'.failure]
  · intro e he
    cases more with
    | nil =>
      rw [List.append_nil] at he
      exact h.before e he
    | cons m ms =>
      rw [List.dropLast_append_cons] at he
      rcases List.mem_append.mp he with he | he
      · exact hs e he
      · exact h'.before e he

theorem eq_nil_of_failure {before after : List Step} {e : Step}
    (h : Proceeds (before ++ e :: after) r) (he : e.failure?.isSome) : after = [] := by
  cases after with
  | nil => rfl
  | cons e' after =>
    have hm : e ∈ (before ++ e :: e' :: after).dropLast := by
      rw [List.dropLast_append_cons, List.dropLast_cons_cons]
      exact List.mem_append_right _ (.head _)
    rw [h.before e hm] at he
    cases he

theorem cons {e : Step} (he : e.failure? = none) (h : Proceeds more r) : Proceeds (e :: more) r := by
  have hs := single e
  rw [he] at hs
  exact hs.append h

end Proceeds

/-! ## Histories -/

namespace Job

variable (j : Job ρ σ)

def emitSteps (c : JavaClass) (p : Progress ρ σ) : List Step :=
  .format c (j.formatter.format c) ::
    match j.formatter.format c with
    | .ok (some text) => [.write text (j.put text p).1]
    | _ => []

def visitSteps (name : String) (p : Progress ρ σ) : List Step :=
  .resolve name (p.session.resolve j.resolver name).1 ::
    match (p.session.resolve j.resolver name).1 with
    | .ok c => j.emitSteps c p
    | .error _ => []

def visitAllSteps (f : Feed) (p : Progress ρ σ) : List Step :=
  match _hn : f.next p.host with
  | (none, _, _) => []
  | (some name, g, host) =>
    j.visitSteps name { p with host } ++
      match j.visit name { p with host } with
      | (.error _, _) => []
      | (.ok (), p) => visitAllSteps g p
termination_by f.left
decreasing_by exact Feed.next_left _hn

def bodySteps (f : Feed) (p : Progress ρ σ) : List Step :=
  if j.formatter.header = "" then j.visitAllSteps f p
  else
    .write j.formatter.header (j.put j.formatter.header p).1 ::
      match j.put j.formatter.header p with
      | (.error _, _) => []
      | (.ok (), p) => j.visitAllSteps f p

/-- The steps of a listing. Closing is always the last one of an open sink. -/
def history (source : Source) (session : Session ρ) (sink : σ) (h : Host) : List Step :=
  match source.feed h with
  | (.error e, _, _) => [.names (.error e)]
  | (.ok feed, _, host) =>
    match j.sink.acquire sink host with
    | (.error e, _, _) => [.names (.ok feed), .acquire (.error e)]
    | (.ok (), sink, host) =>
      let p : Progress ρ σ := ⟨session, sink, .zero, host⟩
      let q := (j.body feed p).2
      .names (.ok feed) :: .acquire (.ok ()) ::
        (j.bodySteps feed p ++ [.release (j.sink.release q.sink q.host).1])

/-! ## The result -/

variable {j}

theorem proceeds_emit (name : String) (c : JavaClass) (p : Progress ρ σ) :
    Proceeds (j.emitSteps c p) (failure (j.emit name c p).1) := by
  unfold emitSteps emit put
  cases hf : j.formatter.format c with
  | error e => exact Proceeds.single (.format c (.error e))
  | ok text =>
    cases text with
    | none => exact Proceeds.single (.format c (.ok none))
    | some text =>
      refine Proceeds.cons rfl ?_
      simp only
      cases hw : (j.sink.write text p.sink p.host).1 with
      | error e => exact Proceeds.single (.write text (.error e))
      | ok u => exact Proceeds.single (.write text (.ok u))

theorem proceeds_visit (name : String) (p : Progress ρ σ) :
    Proceeds (j.visitSteps name p) (failure (j.visit name p).1) := by
  unfold visitSteps visit
  rcases p.session.resolve j.resolver name with ⟨r, session⟩
  cases r with
  | ok c => exact Proceeds.cons rfl (proceeds_emit name c { p with session })
  | error e =>
    have hs := Proceeds.single (.resolve name (.error e))
    cases he : e.isRecoverable <;> simpa [failure, Step.failure?, Option.filter, he] using hs

theorem proceeds_visitAll (f : Feed) (p : Progress ρ σ) :
    Proceeds (j.visitAllSteps f p) (failure (j.visitAll f p).1) := by
  fun_induction j.visitAll f p with
  | case1 f p g host hn =>
    rw [visitAllSteps, hn]
    exact Proceeds.nil
  | case2 f p name g host hn e q hv =>
    have h := proceeds_visit (j := j) name { p with host }
    rw [hv] at h
    rw [visitAllSteps, hn]
    simp only [hv, List.append_nil]
    exact h
  | case3 f p name g host hn q hv ih =>
    have h := proceeds_visit (j := j) name { p with host }
    rw [hv] at h
    rw [visitAllSteps, hn]
    simp only [hv]
    exact h.append ih

theorem proceeds_body (f : Feed) (p : Progress ρ σ) :
    Proceeds (j.bodySteps f p) (failure (j.body f p).1) := by
  unfold bodySteps body
  split
  · exact proceeds_visitAll f p
  · rcases j.put j.formatter.header p with ⟨r, q⟩
    have hs := Proceeds.single (.write j.formatter.header r)
    cases r with
    | error e => exact hs
    | ok u => exact hs.append (proceeds_visitAll f q)

/-- Closing is reported only if nothing failed before. -/
theorem failure_whileOpen (tag : String) (f : Feed) (p : Progress ρ σ) :
    failure (j.whileOpen tag f p).1 =
      (failure (j.body f p).1).or
        (failure (j.sink.release (j.body f p).2.sink (j.body f p).2.host).1) := by
  unfold whileOpen
  rcases j.body f p with ⟨r, q⟩
  cases r with
  | error e => rfl
  | ok u =>
    simp only
    rcases j.sink.release q.sink q.host with ⟨r, sink, host⟩
    cases r <;> rfl

/-- The result of a listing is that of the first step that failed. -/
theorem failure_run (source : Source) (session : Session ρ) (sink : σ) (h : Host) :
    failure (j.run source session sink h).1 =
      (j.history source session sink h).findSome? Step.failure? := by
  unfold run history
  rcases source.feed h with ⟨r, source', host⟩
  cases r with
  | error e => rfl
  | ok feed =>
    simp only
    rcases j.sink.acquire sink host with ⟨r, sink, host⟩
    cases r with
    | error e => rfl
    | ok u =>
      have hb : Proceeds (.names (.ok feed) :: .acquire (.ok ()) :: _) _ :=
        ((proceeds_body (j := j) feed ⟨session, sink, .zero, host⟩).cons rfl).cons rfl
      change failure (j.whileOpen source'.tag feed ⟨session, sink, .zero, host⟩).1 =
        List.findSome? Step.failure?
          ((.names (.ok feed) :: .acquire (.ok ()) :: j.bodySteps feed _) ++ [.release _])
      rw [failure_whileOpen, List.findSome?_append, hb.failure, (Proceeds.single _).failure]
      rfl

end Job

end ClassListing
