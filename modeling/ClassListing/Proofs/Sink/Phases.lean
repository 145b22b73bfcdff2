import Mathlib.Data.List.Induction
import ClassListing.Proofs.Disk.Creating
import ClassListing.Sink

/-!
# Open phases of a sink

A sink is opened, written to and closed in any order. What its calls come to are phases: the texts that are
written between an opening of the closed sink and the next closing. A closed file holds the
texts of the newest phase and no others, standard output those of all phases.
-/

namespace ClassListing

set_option autoImplicit false

variable {σ : Type}

namespace Sink

def perform (k : Sink σ) (c : Call) (x : σ × Host) : Except Error Unit × σ × Host :=
  match c with
  | .acquire => k.acquire x.1 x.2
  | .write text => k.write text x.1 x.2
  | .release => k.release x.1 x.2

/-- The sink and the host after calls, whatever has come of them. -/
def performAll (k : Sink σ) (calls : List Call) (x : σ × Host) : σ × Host :=
  calls.foldl (fun x c => (k.perform c x).2) x

theorem performAll_concat (k : Sink σ) (calls : List Call) (c : Call) (x : σ × Host) :
    k.performAll (calls ++ [c]) x = (k.perform c (k.performAll calls x)).2 := by
  simp [performAll]

def Call.text? : Call → Option String
  | write text => some text
  | _ => none

/-- The texts of the writings that succeed. -/
def taken (k : Sink σ) : List Call → σ × Host → List String
  | [], _ => []
  | c :: calls, x =>
    let texts := if (k.perform c x).1.isOk then c.text?.toList else []
    texts ++ taken k calls (k.perform c x).2

theorem taken_concat (k : Sink σ) (calls : List Call) (c : Call) (x : σ × Host) :
    k.taken (calls ++ [c]) x = k.taken calls x ++
      if (k.perform c (k.performAll calls x)).1.isOk then c.text?.toList else [] := by
  induction calls generalizing x with
  | nil => exact List.append_nil _
  | cons d calls ih =>
    simp only [List.cons_append, taken, ih, List.append_assoc]
    rfl

/-- There is an opening with no later closing. -/
def Opened (calls : List Call) : Prop :=
  ∃ before after, calls = before ++ .acquire :: after ∧ .release ∉ after

theorem opened_concat_iff (calls : List Call) (c : Call) :
    Opened (calls ++ [c]) ↔ c = .acquire ∨ c ≠ .release ∧ Opened calls := by
  constructor
  · rintro ⟨before, after, hcalls, hrelease⟩
    rcases List.eq_nil_or_concat after with rfl | ⟨after, d, rfl⟩
    · obtain ⟨-, hc⟩ := List.append_inj' hcalls rfl
      exact .inl (List.singleton_inj.mp hc)
    · rw [List.concat_eq_append, ← List.cons_append, ← List.append_assoc] at hcalls
      obtain ⟨rfl, hc⟩ := List.append_inj' hcalls rfl
      cases hc
      simp only [List.concat_eq_append, List.mem_append, List.mem_singleton, not_or] at hrelease
      exact .inr ⟨Ne.symm hrelease.2, before, after, rfl, hrelease.1⟩
  · rintro (rfl | ⟨hc, before, after, rfl, hrelease⟩)
    · exact ⟨calls, [], rfl, List.not_mem_nil⟩
    · exact ⟨before, after ++ [c], by simp, by simp [hrelease, Ne.symm hc]⟩

end Sink

open Sink (Opened)

/-! ## Phases -/

/-- The texts of the phases that are over, the newest last, and those of the phase that is not over. -/
structure Phases where
  finished : List (List String)
  current : Option (List String)
  deriving DecidableEq, Repr

namespace Phases

variable {before during after : List Sink.Call} {p : Phases}

def next (p : Phases) : Sink.Call → Phases
  | .acquire => { p with current := some (p.current.getD []) }
  | .write text => { p with current := p.current.map (· ++ [text]) }
  | .release => ⟨p.finished ++ p.current.toList, none⟩

def advance (p : Phases) (calls : List Sink.Call) : Phases := calls.foldl next p

def ofCalls (calls : List Sink.Call) : Phases := advance ⟨[], none⟩ calls

theorem advance_append (p : Phases) (calls more : List Sink.Call) :
    p.advance (calls ++ more) = (p.advance calls).advance more := List.foldl_append

theorem ofCalls_concat (calls : List Sink.Call) (c : Sink.Call) :
    ofCalls (calls ++ [c]) = (ofCalls calls).next c := by
  rw [ofCalls, advance_append]
  rfl

theorem current_isSome_iff (calls : List Sink.Call) :
    (ofCalls calls).current.isSome ↔ Opened calls := by
  induction calls using List.reverseRecOn with
  | nil => simp [ofCalls, advance, Opened]
  | append_singleton calls c ih =>
    rw [ofCalls_concat, Sink.opened_concat_iff, ← ih]
    cases c <;> simp [next]

/-- As long as the sink is not closed, all texts are added to the phase. -/
theorem advance_of_open (hr : .release ∉ during) {texts : List String} (hp : p.current = some texts) :
    p.advance during = ⟨p.finished, some (texts ++ during.filterMap Sink.Call.text?)⟩ := by
  induction during generalizing p texts with
  | nil => simp [advance, ← hp]
  | cons c during ih =>
    simp only [List.mem_cons, not_or] at hr
    show (p.next c).advance during = _
    cases c with
    | acquire => exact ih hr.2 (by simp [next, hp])
    | write text =>
      have hphase : (p.next (.write text)).current = some (texts ++ [text]) := by simp [next, hp]
      rw [ih hr.2 hphase, List.append_assoc]
      rfl
    | release => exact absurd rfl hr.1

/-- As long as the sink is not opened, nothing is added to anything. -/
theorem advance_of_closed (ha : .acquire ∉ after) (hp : p.current = none) : p.advance after = p := by
  induction after with
  | nil => rfl
  | cons c after ih =>
    simp only [List.mem_cons, not_or] at ha
    have hstep : p.next c = p := by
      obtain ⟨finished, current⟩ := p
      cases hp
      cases c with
      | acquire => exact absurd rfl ha.1
      | write text => rfl
      | release => simp [next]
    show (p.next c).advance after = p
    rw [hstep, ih ha.2]

/-- The newest phase of a closed sink has the texts since the last opening that found the sink closed. -/
theorem ofCalls_of_phase (hbefore : ¬ Opened before) (hduring : .release ∉ during)
    (hafter : .acquire ∉ after) :
    ofCalls (before ++ .acquire :: (during ++ .release :: after)) =
      ⟨(ofCalls before).finished ++ [during.filterMap Sink.Call.text?], none⟩ := by
  have hclosed : (ofCalls before).current = none := by
    rwa [← current_isSome_iff, Bool.not_eq_true, Option.isSome_eq_false_iff,
      Option.isNone_iff_eq_none] at hbefore
  have hopen : ((ofCalls before).next .acquire).current = some [] := by simp [next, hclosed]
  have hphase := advance_of_open hduring hopen
  have hrest := advance_of_closed hafter
    (p := ⟨(ofCalls before).finished ++ [during.filterMap Sink.Call.text?], none⟩) rfl
  calc ofCalls (before ++ .acquire :: (during ++ .release :: after))
    _ = ((ofCalls before).next .acquire).advance (during ++ .release :: after) := advance_append ..
    _ = (((ofCalls before).next .acquire).advance during).advance (.release :: after) :=
      advance_append ..
    _ = _ := by
      rw [hphase]
      exact hrest

/-- What holds at first and after every call holds after all calls. -/
theorem performAll_induction {k : Sink σ} {P : Phases → σ × Host → Prop} {x : σ × Host}
    (first : P ⟨[], none⟩ x) (step : ∀ p y c, P p y → P (p.next c) (k.perform c y).2)
    (calls : List Sink.Call) : P (ofCalls calls) (k.performAll calls x) := by
  induction calls using List.reverseRecOn with
  | nil => exact first
  | append_singleton calls c ih =>
    rw [ofCalls_concat, Sink.performAll_concat]
    exact step _ _ c ih

end Phases

/-- The sink answers as an open one while a phase goes on, and as a closed one otherwise. Opening an open sink,
closing a closed one and writing to a closed one leave everything as it is. -/
structure Sink.Follows (k : Sink σ) (refusal : String) (p : Phases) (x : σ × Host) : Prop where
  isOpen : k.isOpen x.1 = p.current.isSome
  acquired : (k.perform .acquire x).1 = .ok ()
  acquired_again : p.current.isSome → k.perform .acquire x = (.ok (), x)
  written : p.current.isSome → ∀ text, (k.perform (.write text) x).1 = .ok ()
  refused : p.current = none → ∀ text, k.perform (.write text) x = (.error (.sinkState refusal), x)
  released : (k.perform .release x).1 = .ok ()
  released_again : p.current = none → k.perform .release x = (.ok (), x)

/-- What has been taken are the texts of all phases. -/
theorem Phases.taken_eq {k : Sink σ} {refusal : String} {x : σ × Host}
    (hk : ∀ calls, k.Follows refusal (ofCalls calls) (k.performAll calls x)) (calls : List Sink.Call) :
    k.taken calls x = (ofCalls calls).finished.flatten ++ (ofCalls calls).current.getD [] := by
  induction calls using List.reverseRecOn with
  | nil => rfl
  | append_singleton calls c ih =>
    rw [Sink.taken_concat, ofCalls_concat, ih]
    have hfollows := hk calls
    generalize k.performAll calls x = y at hfollows
    generalize ofCalls calls = p at hfollows
    obtain ⟨finished, current⟩ := p
    cases c with
    | acquire => simp [next, Sink.Call.text?]
    | release => cases current <;> simp [next, Sink.Call.text?]
    | write text =>
      cases current with
      | none =>
        have hw := hfollows.refused rfl text
        simp [next, hw, Except.isOk, Except.toBool]
      | some texts =>
        have hw := hfollows.written rfl text
        simp [next, hw, Except.isOk, Except.toBool, Sink.Call.text?]

/-! ## Waiting texts -/

theorem join_concat (texts : List String) (more : String) :
    String.join (texts ++ [more]) = String.join texts ++ more := by
  rw [String.join_append, String.join_cons, String.join_nil, String.append_empty]

/-- What has been written and what waits are together all that has been taken. -/
theorem Buffer.append_add {written waiting all : String} (h : written ++ waiting = all) (more : String) :
    written ++ (add waiting more).1 ++ (add waiting more).2 = all ++ more := by
  rw [String.append_assoc, add_append, ← String.append_assoc, h]

/-! ## Files -/

namespace FileSink

variable {before : Host} {path : String} {loc : Location} {p : Phases} {x : FileSink × Host}

/-- An open sink has written a part of its phase and the rest waits; a closed one has written the newest phase,
if there has been any. -/
inductive Stands (before : Host) (path : String) (loc : Location) : Phases → FileSink × Host → Prop
  | untouched : Stands before path loc ⟨[], none⟩ (.closed path, before)
  | opened {h : Host} {finished : List (List String)} {texts : List String} {text waiting : String}
      (file : h.disk.node? loc = some (.file text.toUTF8)) (all : text ++ waiting = String.join texts) :
      Stands before path loc ⟨finished, some texts⟩ (⟨path, some ⟨loc, waiting⟩⟩, h)
  | closed {h : Host} {finished : List (List String)} {texts : List String}
      (file : h.disk.node? loc = some (.file (String.join texts).toUTF8)) :
      Stands before path loc ⟨finished ++ [texts], none⟩ (.closed path, h)

/-- What calls come to if the file can be made: nothing but the file changes. -/
structure Holds (before : Host) (path : String) (loc : Location) (p : Phases) (x : FileSink × Host) :
    Prop where
  stands : Stands before path loc p x
  target : x.2.disk.target path = .ok loc
  elsewhere : before.disk.SameElsewhere loc x.2.disk
  stdout : x.2.stdout = before.stdout

theorem acquire_of_create {h : Host} {d : Disk} (hc : h.disk.create path = .ok (loc, d)) :
    acquire (.closed path) h =
      (.ok (), ⟨path, some ⟨loc, ""⟩⟩, { h with disk := d }.debug .fileSink s!"Writing to {path}") := by
  simp only [acquire, closed, hc]

theorem perform_acquire_of_target {h : Host} (ht : h.disk.target path = .ok loc) :
    sink.perform .acquire (.closed path, h) =
      (.ok (), ⟨path, some ⟨loc, ""⟩⟩,
        { h with disk := h.disk.put loc (.file .empty) }.debug .fileSink s!"Writing to {path}") :=
  acquire_of_create (Disk.create_eq_ok_iff.mpr ⟨ht, rfl⟩)

theorem Holds.follows (hx : Holds before path loc p x) :
    sink.Follows "print on a closed file printer" p x := by
  obtain ⟨hstands, htarget, -, -⟩ := hx
  cases hstands with
  | opened file all => exact ⟨rfl, rfl, fun _ => rfl, fun _ _ => rfl, nofun, rfl, nofun⟩
  | untouched =>
    exact ⟨rfl, congrArg Prod.fst (perform_acquire_of_target htarget), nofun, nofun, fun _ _ => rfl,
      rfl, fun _ => rfl⟩
  | closed file =>
    exact ⟨rfl, congrArg Prod.fst (perform_acquire_of_target htarget), nofun, nofun, fun _ _ => rfl,
      rfl, fun _ => rfl⟩

/-- An opening makes the file if the sink is closed. -/
theorem Holds.acquire_closed {h : Host} {finished : List (List String)}
    (hx : Holds before path loc ⟨finished, none⟩ (.closed path, h)) :
    Holds before path loc ⟨finished, some []⟩ (sink.perform .acquire (.closed path, h)).2 := by
  have hloc := Disk.ne_nil_of_target hx.target
  have hput := Disk.sameElsewhere_put h.disk hloc (.file .empty)
  have hempty : (h.disk.put loc (.file .empty)).node? loc = some (.file "".toUTF8) := by
    rw [Disk.node?_put hloc, if_pos rfl]
    rfl
  rw [perform_acquire_of_target hx.target]
  exact {
    stands := .opened hempty String.append_empty
    target := Disk.target_elsewhere hx.target hput (Disk.hasFile_put h.disk hloc .empty)
    elsewhere := hx.elsewhere.trans hput
    stdout := hx.stdout }

theorem Holds.append {h : Host} {q : Phases} {s t : FileSink} {text : String}
    (hx : Holds before path loc p (s, h)) (file : h.disk.node? loc = some (.file text.toUTF8))
    (more : String)
    (hstands : ∀ k : Host, k.disk.node? loc = some (.file (text ++ more).toUTF8) →
      Stands before path loc q (t, k)) :
    Holds before path loc q (t, { h with disk := h.disk.append loc more }) := by
  have hloc := Disk.ne_nil_of_file file
  have hput := Disk.sameElsewhere_put h.disk hloc (.file (text ++ more).toUTF8)
  have hdisk := Disk.append_toUTF8 file more
  have hnode : (h.disk.append loc more).node? loc = some (.file (text ++ more).toUTF8) := by
    rw [hdisk, Disk.node?_put hloc, if_pos rfl]
  rw [← hdisk] at hput
  exact {
    stands := hstands _ hnode
    target := Disk.target_elsewhere hx.target hput ⟨_, hnode⟩
    elsewhere := hx.elsewhere.trans hput
    stdout := hx.stdout }

theorem Holds.perform (hx : Holds before path loc p x) (c : Sink.Call) :
    Holds before path loc (p.next c) (sink.perform c x).2 := by
  have hstands := hx.stands
  cases hstands with
  | untouched =>
    cases c with
    | acquire => exact hx.acquire_closed
    | write text => exact hx
    | release => exact hx
  | closed file =>
    cases c with
    | acquire => exact hx.acquire_closed
    | write text => exact hx
    | release =>
      show Holds before path loc ⟨_ ++ [], none⟩ _
      rw [List.append_nil]
      exact hx
  | @opened h finished texts text waiting file all =>
    cases c with
    | acquire => exact hx
    | write more =>
      have hall := Buffer.append_add all more
      rw [← join_concat] at hall
      exact hx.append file (Buffer.add waiting more).1 fun k hk => .opened hk hall
    | release => exact hx.append file waiting fun k hk => .closed (all ▸ hk)

theorem perform_acquire_of_create_error {h : Host} {e : DiskError} (he : h.disk.create path = .error e) :
    sink.perform .acquire (.closed path, h) = (.error (.file e), .closed path, h) := by
  simp only [Sink.perform, sink, acquire, closed, he]

/-- If the file cannot be made, no call does anything. -/
theorem performAll_of_create_error {h : Host} {e : DiskError} (he : h.disk.create path = .error e)
    (calls : List Sink.Call) : sink.performAll calls (.closed path, h) = (.closed path, h) := by
  let P : Phases → FileSink × Host → Prop := fun _ x => x = (.closed path, h)
  refine Phases.performAll_induction (show P ⟨[], none⟩ _ from rfl) ?_ calls
  rintro p _ c rfl
  cases c with
  | acquire => rw [perform_acquire_of_create_error he]
  | write text => rfl
  | release => rfl

theorem holds_of_create {h : Host} {d : Disk} (hc : h.disk.create path = .ok (loc, d))
    (calls : List Sink.Call) :
    Holds h path loc (.ofCalls calls) (sink.performAll calls (.closed path, h)) := by
  refine Phases.performAll_induction ?_ (fun _ _ c hx => hx.perform c) calls
  exact ⟨.untouched, (Disk.create_eq_ok_iff.mp hc).1, ⟨rfl, fun _ _ => rfl⟩, rfl⟩

theorem Holds.read_closed (hx : Holds before path loc p x) (hp : p.current = none) {texts : List String}
    (ht : p.finished.getLast? = some texts) : x.2.disk.read path = .ok (String.join texts).toUTF8 := by
  have hnode : x.2.disk.node? loc = some (.file (String.join texts).toUTF8) := by
    have hstands := hx.stands
    cases hstands with
    | untouched => cases ht
    | opened file all => cases hp
    | closed file =>
      rw [List.getLast?_concat] at ht
      cases ht
      exact file
  simp only [Disk.read, Disk.readWith, Disk.find_of_target hx.target hnode]

end FileSink

/-! ## Standard output -/

namespace TerminalSink

/-- Of the texts of all phases those that an open sink still keeps have not been written. -/
inductive Stands (before : Host) : Phases → TerminalSink × Host → Prop
  | opened {h : Host} {finished : List (List String)} {texts : List String} {waiting : String}
      (all : h.stdout ++ waiting = before.stdout ++ String.join (finished.flatten ++ texts)) :
      Stands before ⟨finished, some texts⟩ (⟨some waiting⟩, h)
  | closed {h : Host} {finished : List (List String)}
      (all : h.stdout = before.stdout ++ String.join finished.flatten) :
      Stands before ⟨finished, none⟩ (.closed, h)

variable {before : Host} {p : Phases} {x : TerminalSink × Host}

theorem Stands.follows (hx : Stands before p x) :
    sink.Follows "print on a closed stdout printer" p x := by
  cases hx with
  | opened all => exact ⟨rfl, rfl, fun _ => rfl, fun _ _ => rfl, nofun, rfl, nofun⟩
  | closed all => exact ⟨rfl, rfl, nofun, nofun, fun _ _ => rfl, rfl, fun _ => rfl⟩

theorem Stands.perform (hx : Stands before p x) (c : Sink.Call) :
    Stands before (p.next c) (sink.perform c x).2 := by
  cases hx with
  | @opened h finished texts waiting all =>
    cases c with
    | acquire => exact .opened all
    | write more =>
      have hall := Buffer.append_add all more
      exact .opened (hall.trans (by rw [String.append_assoc, ← join_concat, List.append_assoc]))
    | release =>
      refine .closed ?_
      rw [List.flatten_append]
      exact all.trans (by simp)
  | @closed h finished all =>
    cases c with
    | acquire => exact .opened (by simpa using all)
    | write more => exact .closed all
    | release => exact .closed (by simpa using all)

theorem Stands.stdout_closed (hx : Stands before p x) (hp : p.current = none) :
    x.2.stdout = before.stdout ++ String.join (p.finished.flatten ++ p.current.getD []) := by
  cases hx with
  | opened all => cases hp
  | closed all => simpa using all

theorem stands_performAll (h : Host) (calls : List Sink.Call) :
    Stands h (.ofCalls calls) (sink.performAll calls (.closed, h)) :=
  Phases.performAll_induction (.closed String.append_empty.symm) (fun _ _ c hx => hx.perform c) calls

end TerminalSink

/-- Calls in any order come to phases: a sink is open after an opening that no closing follows, and then it takes
texts; otherwise it refuses them, and nothing changes. Opening again and closing again change nothing
either. When it is closed, a file that can be made has the texts of the newest phase, whatever it had before,
and standard output has got those of all phases. A file that cannot be made is never open. -/
theorem closed_sinks_hold_phases (path : String) (h k : Host) (calls : List Sink.Call) :
    let p := Phases.ofCalls calls
    let f := FileSink.sink.performAll calls (.closed path, h)
    let t := TerminalSink.sink.performAll calls (.closed, k)
    (p.current.isSome ↔ Opened calls) ∧
      (∀ before during after, calls = before ++ .acquire :: (during ++ .release :: after) →
        ¬ Opened before → .release ∉ during → .acquire ∉ after →
        p.current = none ∧ p.finished.getLast? = some (during.filterMap Sink.Call.text?)) ∧
      (∀ loc d, h.disk.create path = .ok (loc, d) →
        FileSink.sink.Follows "print on a closed file printer" p f ∧
        (p.current = none → ∀ texts, p.finished.getLast? = some texts →
          f.2.disk.read path = .ok (String.join texts).toUTF8) ∧
        h.disk.SameElsewhere loc f.2.disk ∧ f.2.stdout = h.stdout) ∧
      TerminalSink.sink.Follows "print on a closed stdout printer" p t ∧
      (p.current = none →
        t.2.stdout = k.stdout ++ String.join (TerminalSink.sink.taken calls (.closed, k))) ∧
      ∀ e, h.disk.create path = .error e →
        f = (.closed path, h) ∧ FileSink.sink.perform .acquire f = (.error (.file e), f) := by
  intro p f t
  refine ⟨Phases.current_isSome_iff calls, ?_, ?_, (TerminalSink.stands_performAll k calls).follows,
    ?_, ?_⟩
  · rintro before during after hcalls hbefore hduring hafter
    have hp : p = _ := (congrArg Phases.ofCalls hcalls).trans
      (Phases.ofCalls_of_phase hbefore hduring hafter)
    rw [hp]
    exact ⟨rfl, List.getLast?_concat⟩
  · intro loc d hc
    have hx := FileSink.holds_of_create hc calls
    exact ⟨hx.follows, fun hp texts ht => hx.read_closed hp ht, hx.elsewhere, hx.stdout⟩
  · intro hp
    have hall := Phases.taken_eq (fun calls => (TerminalSink.stands_performAll k calls).follows) calls
    rw [hall]
    exact (TerminalSink.stands_performAll k calls).stdout_closed hp
  · intro e he
    have hf : f = (.closed path, h) := FileSink.performAll_of_create_error he calls
    rw [hf]
    exact ⟨rfl, FileSink.perform_acquire_of_create_error he⟩

theorem second_phase_replaces_first :
    let h := Host.ofDisk (.empty []) []
    let calls : List Sink.Call := [.acquire, .write "first", .acquire, .write "phase", .release,
      .write "refused", .acquire, .write "second", .release, .release]
    (FileSink.sink.performAll calls (.closed "LIST.csv", h)).2.disk.read "LIST.csv" =
      .ok "second".toUTF8 := by
  intro h calls
  have htarget : h.disk.target "LIST.csv" = .ok ["LIST.csv"] := by decide +kernel
  have hcreate := Disk.create_eq_ok_iff.mpr ⟨htarget, rfl⟩
  obtain ⟨-, -, hfile, -⟩ := closed_sinks_hold_phases "LIST.csv" h h calls
  have hread := (hfile _ _ hcreate).2.1 rfl ["second"] rfl
  rwa [String.join_cons, String.join_nil, String.append_empty] at hread

end ClassListing
