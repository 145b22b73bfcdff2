import ClassListing.Proofs.Cursor.Course
import ClassListing.Proofs.Cursor.Observed

/-!
# Sub-cursors are made on demand

A sequence makes its next sub-cursor when it finds the newest one exhausted, and not before. Here sub-cursors
are numbered as they are made, and what happens to them is recorded. The record alone tells which
sub-cursors a sequence still holds: the newest one, and the one that a removal would go to.
-/

namespace ClassListing.Sequential

set_option autoImplicit false

variable {W π σ α : Type}

/-! ## Records -/

inductive Event (α : Type) where
  /-- The next sub-cursor is made. -/
  | made
  /-- Asking for another sub-cursor finds none. -/
  | ended
  | answered (number : Nat) (a : Cursor.Answer α)

def Event.isMade : Event α → Bool
  | made => true
  | _ => false

def Event.isEnded : Event α → Bool
  | ended => true
  | _ => false

/-- How many sub-cursors have been made; the next one gets this number. -/
def made (es : List (Event α)) : Nat := es.countP Event.isMade

def hasEnded (es : List (Event α)) : Bool := es.any Event.isEnded

/-- The sub-cursor that is read from, until the end is found. -/
def newest (es : List (Event α)) : Option Nat :=
  if hasEnded es || made es = 0 then none else some (made es - 1)

def Event.yield (before : Option (Nat × α)) : Event α → Option (Nat × α)
  | answered i (.next (some x)) => some (i, x)
  | answered _ (.remove _) => none
  | _ => before

/-- The element yielded last and the sub-cursor that gave it, if nothing has been removed since. -/
def lastYield (es : List (Event α)) : Option (Nat × α) := es.foldl Event.yield none

/-- The sub-cursor that a removal is about. -/
def target (es : List (Event α)) : Option Nat := (lastYield es).map Prod.fst

/-- Nothing has happened so far, or the newest sub-cursor has just been found exhausted. -/
def AtEnd (es : List (Event α)) : Prop :=
  es = [] ∨ ∃ i, es.getLast? = some (.answered i (.hasNext false)) ∧ made es = i + 1

/-- What can happen, one event after another. Only the newest sub-cursor is read, and removals go to the
target. -/
inductive Orderly : List (Event α) → Prop where
  | nil : Orderly []
  | make {es : List (Event α)} : Orderly es → hasEnded es = false → AtEnd es →
      Orderly (es ++ [.made])
  | finish {es : List (Event α)} : Orderly es → hasEnded es = false → AtEnd es →
      Orderly (es ++ [.ended])
  | read {es : List (Event α)} {i : Nat} {a : Cursor.Answer α} : Orderly es → newest es = some i →
      (∀ r, a ≠ .remove r) → Orderly (es ++ [.answered i a])
  | remove {es : List (Event α)} {i : Nat} {r : Except RemoveError Unit} : Orderly es →
      target es = some i → Orderly (es ++ [.answered i (.remove r)])

section

variable (es : List (Event α))

@[simp] theorem made_nil : made ([] : List (Event α)) = 0 := rfl

@[simp] theorem made_append_made : made (es ++ [.made]) = made es + 1 := by
  simp [made, Event.isMade]

@[simp] theorem made_append_ended : made (es ++ [.ended]) = made es := by
  simp [made, Event.isMade]

@[simp] theorem made_append_answered (i : Nat) (a : Cursor.Answer α) :
    made (es ++ [.answered i a]) = made es := by
  simp [made, Event.isMade]

@[simp] theorem hasEnded_append_made : hasEnded (es ++ [.made]) = hasEnded es := by
  simp [hasEnded, Event.isEnded]

@[simp] theorem hasEnded_append_ended : hasEnded (es ++ [.ended]) = true := by
  simp [hasEnded, Event.isEnded]

@[simp] theorem hasEnded_append_answered (i : Nat) (a : Cursor.Answer α) :
    hasEnded (es ++ [.answered i a]) = hasEnded es := by
  simp [hasEnded, Event.isEnded]

theorem newest_eq_some {i : Nat} : newest es = some i ↔ hasEnded es = false ∧ made es = i + 1 := by
  unfold newest
  cases hasEnded es with
  | true => simp
  | false => cases made es <;> simp

@[simp] theorem newest_append_answered (i : Nat) (a : Cursor.Answer α) :
    newest (es ++ [.answered i a]) = newest es := by
  simp [newest]

@[simp] theorem newest_append_ended : newest (es ++ [.ended]) = none := by simp [newest]

theorem newest_append_made (h : hasEnded es = false) : newest (es ++ [.made]) = some (made es) := by
  simp [newest, h]

theorem lastYield_append (e : Event α) : lastYield (es ++ [e]) = e.yield (lastYield es) := by
  simp [lastYield]

theorem lastYield_append_made : lastYield (es ++ [.made]) = lastYield es := lastYield_append es _

theorem lastYield_append_quiet {a : Cursor.Answer α} (ha : a.quiet = true) (i : Nat) :
    lastYield (es ++ [.answered i a]) = lastYield es := by
  rw [lastYield_append]
  cases a with
  | next x => cases x with
    | none => rfl
    | some x => cases ha
  | hasNext more => rfl
  | remove r => cases ha

@[simp] theorem target_append_made : target (es ++ [.made]) = target es :=
  congrArg (Option.map Prod.fst) (lastYield_append_made es)

@[simp] theorem target_append_ended : target (es ++ [.ended]) = target es :=
  congrArg (Option.map Prod.fst) (lastYield_append es _)

@[simp] theorem target_append_yield (i : Nat) (x : α) :
    target (es ++ [.answered i (.next (some x))]) = some i :=
  congrArg (Option.map Prod.fst) (lastYield_append es _)

@[simp] theorem target_append_remove (i : Nat) (r : Except RemoveError Unit) :
    target (es ++ [.answered i (.remove r)]) = none :=
  congrArg (Option.map Prod.fst) (lastYield_append es _)

theorem target_append_quiet {a : Cursor.Answer α} (ha : a.quiet = true) (i : Nat) :
    target (es ++ [.answered i a]) = target es :=
  congrArg (Option.map Prod.fst) (lastYield_append_quiet es ha i)

/-- What a sub-cursor answers when it is read from. -/
def Event.reading (i : Nat) : Event α → Option (Cursor.Answer α)
  | answered _ (.remove _) => none
  | answered j a => if j = i then some a else none
  | _ => none

def lastReading (i : Nat) (es : List (Event α)) : Option (Cursor.Answer α) :=
  (es.filterMap (Event.reading i)).getLast?

theorem lastReading_append (i : Nat) (e : Event α) :
    lastReading i (es ++ [e]) = (e.reading i).or (lastReading i es) := by
  unfold lastReading
  cases h : e.reading i <;> simp [h]

theorem lastReading_append_of_none {i : Nat} {e : Event α} (h : e.reading i = none) :
    lastReading i (es ++ [e]) = lastReading i es := by
  rw [lastReading_append, h, Option.none_or]

theorem Event.reading_of_ne {i j : Nat} (h : j ≠ i) (a : Cursor.Answer α) :
    reading i (answered j a) = none := by
  cases a <;> simp [reading, h]

namespace Orderly

theorem target_lt {es : List (Event α)} (h : Orderly es) {i : Nat} (ht : target es = some i) :
    i < made es := by
  induction h generalizing i with
  | nil => cases ht
  | make _ _ _ ih =>
    have := ih (by simpa using ht)
    simp only [made_append_made]
    omega
  | finish _ _ _ ih => simpa using ih (by simpa using ht)
  | @read es j a _ hn _ ih =>
    have hlast := ((newest_eq_some es).mp hn).2
    rw [made_append_answered]
    cases hq : a.quiet with
    | true => exact ih (by simpa [target_append_quiet es hq] using ht)
    | false =>
      cases a with
      | next x => cases x with
        | none => cases hq
        | some x =>
          rw [target_append_yield, Option.some.injEq] at ht
          omega
      | hasNext more => cases hq
      | remove r => simp at ht
  | remove _ _ _ => simp at ht

theorem exhausted {es : List (Event α)} (h : Orderly es) {i : Nat} (hi : i + 1 < made es) :
    lastReading i es = some (.hasNext false) := by
  induction h with
  | nil => cases hi
  | @make es _ _ hend ih =>
    rw [lastReading_append_of_none es rfl]
    rw [made_append_made] at hi
    rcases hend with rfl | ⟨j, hlast, hmade⟩
    · rw [made_nil] at hi
      omega
    · rcases Nat.lt_or_ge (i + 1) (made es) with hlt | hge
      · exact ih hlt
      · -- the newest one has just been found exhausted
        have hij : j = i := by omega
        obtain ⟨before, rfl⟩ := List.getLast?_eq_some_iff.mp hlast
        rw [lastReading_append, hij]
        simp [Event.reading]
  | @finish es _ _ _ ih =>
    rw [lastReading_append_of_none es rfl]
    exact ih (by simpa using hi)
  | @read es j a _ hn _ ih =>
    have hlast := ((newest_eq_some es).mp hn).2
    rw [made_append_answered] at hi
    have hij : j ≠ i := by omega
    rw [lastReading_append_of_none es (Event.reading_of_ne hij a)]
    exact ih hi
  | @remove es j r _ _ ih =>
    rw [lastReading_append_of_none es rfl]
    exact ih (by simpa using hi)

end Orderly

end

/-! ## Numbered sub-cursors -/

def numbered (C : Cursor W σ α) : Cursor W (Nat × σ) α where
  next s w :=
    let (x, t, w) := C.next s.2 w
    (x, (s.1, t), w)
  hasNext s w :=
    let (more, t, w) := C.hasNext s.2 w
    (more, (s.1, t), w)
  remove s w :=
    let (r, t, w) := C.remove s.2 w
    (r, (s.1, t), w)
  bound s := C.bound s.2

def recorded (C : Cursor W σ α) : Cursor (W × List (Event α)) (Nat × σ) α :=
  (numbered C).observed fun s a es => es ++ [.answered s.1 a]

def recordedSupply (α : Type) (S : Supply W π σ) : Supply (W × List (Event α)) π (Nat × σ) where
  build p w :=
    let (c, v) := S.build p w.1
    ((made w.2, c), v, w.2 ++ [.made])
  ended w := (S.ended w.1, w.2 ++ [.ended])
  bound := S.bound

theorem recorded_next (C : Cursor W σ α) (c : Nat × σ) (w : W × List (Event α)) :
    (recorded C).next c w = ((C.next c.2 w.1).1, (c.1, (C.next c.2 w.1).2.1),
      (C.next c.2 w.1).2.2, w.2 ++ [.answered c.1 (.next (C.next c.2 w.1).1)]) := rfl

theorem recorded_image (C : Cursor W σ α) :
    (recorded C).Image (fun x => x) (fun s t => s.2 = t) (fun w v => w.1 = v) C where
  next := by
    rintro ⟨i, s⟩ - w - rfl rfl
    exact ⟨by simp [recorded_next], rfl, rfl⟩
  hasNext := by
    rintro ⟨i, s⟩ - w - rfl rfl
    exact ⟨rfl, rfl, rfl⟩
  remove := by
    rintro ⟨i, s⟩ - w - rfl rfl
    exact ⟨rfl, rfl, rfl⟩
  bound := by
    rintro ⟨i, s⟩ - rfl
    rfl

theorem recordedSupply_image (S : Supply W π σ) :
    (recordedSupply α S).Image Eq (fun s t => s.2 = t) (fun w v => w.1 = v) S where
  build := by
    rintro p - w - rfl rfl
    exact ⟨rfl, rfl⟩
  ended := by
    rintro w - rfl
    rfl
  bound := by
    rintro p - rfl
    rfl

/-! ## The state of a sequence and the record -/

def lastFrom (newest target : Option Nat) : LastFrom :=
  match target with
  | none => .nothing
  | some i => if newest = some i then .current else .retired

theorem held_of_ne {newest target : Option Nat} (h : ∀ i, target = some i → newest ≠ some i) :
    target = (target.filter fun i => newest ≠ some i) ∧
      lastFrom none target = lastFrom newest target := by
  cases target with
  | none => exact ⟨rfl, rfl⟩
  | some i => simp [Option.filter_some, lastFrom, h i rfl]

/-- What a sequence holds, as the record tells it. -/
structure Tracked (plans : List π) (s : Sequential π (Nat × σ)) (es : List (Event α)) : Prop where
  orderly : Orderly es
  made_le : made es ≤ plans.length
  pending : s.pending = plans.drop (made es)
  started : hasEnded es = false → 0 < made es
  ended : hasEnded es = true → made es = plans.length
  current : s.current.map Prod.fst = newest es
  retired : s.retired.map Prod.fst = (target es).filter fun i => newest es ≠ some i
  last : s.last = lastFrom (newest es) (target es)

namespace Tracked

variable {plans : List π} {es : List (Event α)} {s : Sequential π (Nat × σ)}

theorem newest_current (h : Tracked plans s es) {c : Nat × σ} (hc : s.current = some c) :
    newest es = some c.1 := by
  rw [← h.current, hc, Option.map_some]

theorem current_eq_none (h : Tracked plans s es) : s.current = none ↔ hasEnded es = true := by
  rw [← Option.map_eq_none_iff, h.current]
  cases he : hasEnded es with
  | true => simp [newest, he]
  | false =>
    have := h.started he
    simp [newest, he]
    omega

/-- Where a removal would go to: nowhere, to the newest sub-cursor, or to one that is kept for it. -/
theorem target_cases (h : Tracked plans s es) :
    (s.last = .nothing ∧ target es = none ∧ s.retired = none) ∨
    (∃ c, s.last = .current ∧ target es = some c.1 ∧ s.current = some c ∧ s.retired = none) ∨
    ∃ c, s.last = .retired ∧ target es = some c.1 ∧ s.retired = some c ∧ newest es ≠ some c.1 := by
  have hlast := h.last
  have hretired := h.retired
  cases ht : target es with
  | none =>
    rw [ht, Option.filter_none, Option.map_eq_none_iff] at hretired
    exact .inl ⟨by rw [hlast, ht]; rfl, rfl, hretired⟩
  | some i =>
    rw [ht, Option.filter_some] at hretired
    rw [ht, lastFrom] at hlast
    by_cases hn : newest es = some i
    · obtain ⟨c, hc, rfl⟩ := Option.map_eq_some_iff.mp (h.current.trans hn)
      rw [if_pos hn] at hlast
      rw [if_neg (by simp [hn]), Option.map_eq_none_iff] at hretired
      exact .inr (.inl ⟨c, hlast, rfl, hc, hretired⟩)
    · rw [if_neg hn] at hlast
      rw [if_pos (by simp [hn])] at hretired
      obtain ⟨c, hc, rfl⟩ := Option.map_eq_some_iff.mp hretired
      exact .inr (.inr ⟨c, hlast, rfl, hc, hn⟩)

theorem current_isSome (h : Tracked plans s es) (hl : s.last = .current) : s.current.isSome := by
  rcases h.target_cases with ⟨hl', -⟩ | ⟨c, -, -, hc, -⟩ | ⟨c, hl', -⟩
  · cases hl.symm.trans hl'
  · rw [hc, Option.isSome_some]
  · cases hl.symm.trans hl'

theorem retired_isSome (h : Tracked plans s es) (hl : s.last = .retired) : s.retired.isSome := by
  rcases h.target_cases with ⟨hl', -⟩ | ⟨c, hl', -⟩ | ⟨c, -, -, hc, -⟩
  · cases hl.symm.trans hl'
  · cases hl.symm.trans hl'
  · rw [hc, Option.isSome_some]

variable {pending : List π} {c : Nat × σ} {retired : Option (Nat × σ)} {last : LastFrom}

theorem made_eq (h : Tracked plans ⟨pending, some c, retired, last⟩ es) : made es = c.1 + 1 :=
  ((newest_eq_some es).mp (h.newest_current rfl)).2

theorem drop_succ (h : Tracked plans ⟨pending, some c, retired, last⟩ es) :
    plans.drop (c.1 + 1) = pending := by
  rw [← h.made_eq]
  exact h.pending.symm

/-- The newest sub-cursor is read from, without yielding anything. -/
theorem quiet (h : Tracked plans ⟨pending, some c, retired, last⟩ es) (t : σ) {a : Cursor.Answer α}
    (ha : a.quiet = true) (hr : ∀ r, a ≠ .remove r) :
    Tracked plans ⟨pending, some (c.1, t), retired, last⟩ (es ++ [.answered c.1 a]) := by
  have ht := target_append_quiet es ha c.1
  exact {
    orderly := h.orderly.read (h.newest_current rfl) hr
    made_le := by simpa using h.made_le
    pending := by simpa using h.pending
    started := by simpa using h.started
    ended := by simpa using h.ended
    current := by simpa using h.current
    retired := by simpa [ht] using h.retired
    last := by simpa [ht] using h.last }

theorem yields (h : Tracked plans ⟨pending, some c, retired, last⟩ es) (t : σ) (x : α) :
    Tracked plans ⟨pending, some (c.1, t), none, .current⟩
      (es ++ [.answered c.1 (.next (some x))]) := by
  have hn := h.newest_current rfl
  have ht := target_append_yield es c.1 x
  exact {
    orderly := h.orderly.read hn (by simp)
    made_le := by simpa using h.made_le
    pending := by simpa using h.pending
    started := by simpa using h.started
    ended := by simpa using h.ended
    current := by simpa using hn.symm
    retired := by simp [ht, hn, Option.filter]
    last := by simp [ht, hn, lastFrom] }

/-- A sub-cursor that is left behind is kept if and only if a removal would go there. -/
theorem kept_eq (h : Tracked plans ⟨pending, some c, retired, last⟩ es) (t : σ) :
    (kept (c.1, t) retired last).1.map Prod.fst = target es ∧
      (kept (c.1, t) retired last).2 = lastFrom none (target es) := by
  rcases h.target_cases with ⟨rfl, ht, rfl⟩ | ⟨d, rfl, ht, hd, -⟩ | ⟨d, rfl, ht, hd, -⟩
  · simp [kept, ht, lastFrom]
  · cases hd
    simp [kept, ht, lastFrom]
  · simp only at hd
    simp [kept, hd, ht, lastFrom]

theorem make {p : π} (h : Tracked plans ⟨p :: pending, some c, retired, last⟩ es) (t u : σ)
    (hend : AtEnd es) :
    Tracked plans ⟨pending, some (made es, u), (kept (c.1, t) retired last).1,
      (kept (c.1, t) retired last).2⟩ (es ++ [.made]) := by
  obtain ⟨hopen, hmade⟩ := (newest_eq_some es).mp (h.newest_current rfl)
  have hplans : plans.drop (made es) = p :: pending := h.pending.symm
  have hlt : made es < plans.length := by
    have hlen := congrArg List.length hplans
    rw [List.length_drop, List.length_cons] at hlen
    omega
  have hnew := newest_append_made es hopen
  obtain ⟨hk, hl⟩ := h.kept_eq t
  have hother : ∀ i, target es = some i → some (made es) ≠ some i := by
    intro i hi heq
    have := h.orderly.target_lt hi
    rw [Option.some.injEq] at heq
    omega
  obtain ⟨hfilter, hlast⟩ := held_of_ne hother
  exact {
    orderly := h.orderly.make hopen hend
    made_le := by rw [made_append_made]; exact hlt
    pending := by rw [made_append_made, ← List.drop_drop, hplans]; rfl
    started := by simp
    ended := by simp [hopen]
    current := hnew.symm
    retired := by rw [hnew, target_append_made]; exact hk.trans hfilter
    last := by rw [hnew, target_append_made]; exact hl.trans hlast }

theorem finish (h : Tracked plans ⟨[], some c, retired, last⟩ es) (t : σ) (hend : AtEnd es) :
    Tracked plans ⟨[], none, (kept (c.1, t) retired last).1, (kept (c.1, t) retired last).2⟩
      (es ++ [.ended]) := by
  obtain ⟨hopen, hmade⟩ := (newest_eq_some es).mp (h.newest_current rfl)
  have hall : plans.length ≤ made es := List.drop_eq_nil_iff.mp h.pending.symm
  obtain ⟨hk, hl⟩ := h.kept_eq t
  have hother : ∀ i, target es = some i → none ≠ some i := by simp
  obtain ⟨hfilter, -⟩ := held_of_ne hother
  exact {
    orderly := h.orderly.finish hopen hend
    made_le := by simpa using h.made_le
    pending := by rw [made_append_ended]; exact h.pending
    started := by simp
    ended := fun _ => by rw [made_append_ended]; exact Nat.le_antisymm h.made_le hall
    current := by rw [newest_append_ended]; rfl
    retired := by rw [newest_append_ended, target_append_ended]; exact hk.trans hfilter
    last := by rw [newest_append_ended, target_append_ended]; exact hl }

/-- After a removal nothing is kept beside the newest sub-cursor. -/
theorem removes {i : Nat} (h : Tracked plans s es) (ht : target es = some i)
    (r : Except RemoveError Unit) {t : Sequential π (Nat × σ)} (hp : t.pending = s.pending)
    (hc : t.current.map Prod.fst = s.current.map Prod.fst) (hr : t.retired = none)
    (hl : t.last = .nothing) :
    Tracked plans t (es ++ [.answered i (.remove r)]) := by
  have hnone := target_append_remove es i r
  exact {
    orderly := h.orderly.remove ht
    made_le := by simpa using h.made_le
    pending := by simpa [hp] using h.pending
    started := by simpa using h.started
    ended := by simpa using h.ended
    current := by rw [hc, h.current, newest_append_answered]
    retired := by rw [hr, hnone]; rfl
    last := by rw [hl, hnone]; rfl }

end Tracked

/-! ## Calls -/

section

variable {C : Cursor W σ α} {S : Supply W π σ} {plans : List π}

theorem start_tracked (S : Supply W π σ) (plans : List π) (w : W) :
    Tracked plans (start (recordedSupply α S) plans (w, [])).1
      (start (recordedSupply α S) plans (w, [])).2.2 := by
  cases plans with
  | nil =>
    exact {
      orderly := Orderly.nil.finish rfl (.inl rfl)
      made_le := Nat.le_refl _
      pending := rfl
      started := fun h => nomatch h
      ended := fun _ => rfl
      current := rfl
      retired := rfl
      last := rfl }
  | cons p ps =>
    exact {
      orderly := Orderly.nil.make rfl (.inl rfl)
      made_le := Nat.succ_le_succ (Nat.zero_le _)
      pending := rfl
      started := fun _ => Nat.one_pos
      ended := fun h => nomatch h
      current := rfl
      retired := rfl
      last := rfl }

/-- A test of the newest sub-cursor that finds nothing more is what making another one takes. -/
theorem Tracked.tested {pending : List π} {c : Nat × σ} {retired : Option (Nat × σ)}
    {last : LastFrom} {es : List (Event α)}
    (h : Tracked plans ⟨pending, some c, retired, last⟩ es) (t : σ) (more : Bool) :
    Tracked plans ⟨pending, some (c.1, t), retired, last⟩ (es ++ [.answered c.1 (.hasNext more)]) ∧
      (more = false → AtEnd (es ++ [.answered c.1 (.hasNext more)])) := by
  refine ⟨h.quiet t rfl (by simp), ?_⟩
  rintro rfl
  exact .inr ⟨c.1, by simp, by rw [made_append_answered, h.made_eq]⟩

/-- Advancing yields nothing, and it finds more if and only if there is a current sub-cursor then. -/
structure Advances (plans : List π) (before : Option (Nat × α))
    (r : Bool × Sequential π (Nat × σ) × W × List (Event α)) : Prop where
  tracked : Tracked plans r.2.1 r.2.2.2
  more : r.1 = r.2.1.current.isSome
  yield : lastYield r.2.2.2 = before

theorem advanceFrom_advances (pending : List π) {c : Nat × σ} {retired : Option (Nat × σ)}
    {last : LastFrom} {w : W × List (Event α)}
    {before : Option (Nat × α)} (h : Tracked plans ⟨pending, some c, retired, last⟩ w.2)
    (hy : lastYield w.2 = before) :
    Advances plans before
      (advanceFrom (recorded C) (recordedSupply α S) pending c retired last w) := by
  induction pending generalizing c retired last w with
  | nil =>
    have hquiet := (lastYield_append_quiet w.2 (a := .hasNext (C.hasNext c.2 w.1).1) rfl c.1).trans hy
    cases hb : ((recorded C).hasNext c w).1 with
    | true =>
      rw [advanceFrom_of_more hb]
      exact ⟨(h.tested (C.hasNext c.2 w.1).2.1 _).1, rfl, hquiet⟩
    | false =>
      rw [advanceFrom_nil hb]
      obtain ⟨ht, hend⟩ := h.tested (C.hasNext c.2 w.1).2.1 (C.hasNext c.2 w.1).1
      exact ⟨ht.finish (C.hasNext c.2 w.1).2.1 (hend hb), rfl,
        (lastYield_append _ _).trans hquiet⟩
  | cons p ps ih =>
    have hquiet := (lastYield_append_quiet w.2 (a := .hasNext (C.hasNext c.2 w.1).1) rfl c.1).trans hy
    cases hb : ((recorded C).hasNext c w).1 with
    | true =>
      rw [advanceFrom_of_more hb]
      exact ⟨(h.tested (C.hasNext c.2 w.1).2.1 _).1, rfl, hquiet⟩
    | false =>
      rw [advanceFrom_cons hb]
      obtain ⟨ht, hend⟩ := h.tested (C.hasNext c.2 w.1).2.1 (C.hasNext c.2 w.1).1
      exact ih (ht.make (C.hasNext c.2 w.1).2.1 _ (hend hb))
        ((lastYield_append_made _).trans hquiet)

theorem advance_advances {s : Sequential π (Nat × σ)} {w : W × List (Event α)}
    (h : Tracked plans s w.2) :
    Advances plans (lastYield w.2) (advance (recorded C) (recordedSupply α S) s w) := by
  obtain ⟨pending, current, retired, last⟩ := s
  cases current with
  | none => exact ⟨h, rfl, rfl⟩
  | some c => exact advanceFrom_advances pending h rfl

/-- What a call of `next` comes to: what it yields the newest sub-cursor has just given. -/
structure Steps (plans : List π) (before : Option (Nat × α))
    (r : Option α × Sequential π (Nat × σ) × W × List (Event α)) : Prop where
  tracked : Tracked plans r.2.1 r.2.2.2
  yield : (lastYield r.2.2.2).map Prod.snd = r.1.or (before.map Prod.snd)
  given : ∀ x ∈ r.1, ∃ i, r.2.2.2.getLast? = some (.answered i (.next (some x))) ∧
    made r.2.2.2 = i + 1

theorem next_steps {s : Sequential π (Nat × σ)} {w : W × List (Event α)}
    (h : Tracked plans s w.2) :
    Steps plans (lastYield w.2) (next (recorded C) (recordedSupply α S) s w) := by
  have ha : Advances plans (lastYield w.2) (advance (recorded C) (recordedSupply α S) s w) :=
    advance_advances h
  unfold next
  generalize advance (recorded C) (recordedSupply α S) s w = r at ha
  obtain ⟨more, ⟨pending, current, retired, last⟩, v⟩ := r
  obtain ⟨ht, hmore, hyield⟩ := ha
  simp only at ht hmore hyield
  rw [← hyield]
  subst hmore
  cases current with
  | none => exact ⟨ht, rfl, by simp⟩
  | some c =>
    simp only [Option.isSome_some, recorded_next]
    generalize C.next c.2 v.1 = y
    obtain ⟨x, t, u⟩ := y
    cases x with
    | none =>
      exact ⟨ht.quiet t rfl (by simp), congrArg _ (lastYield_append_quiet _ rfl _), by simp⟩
    | some x =>
      refine ⟨ht.yields t x, congrArg _ (lastYield_append _ _), fun y hy => ?_⟩
      cases hy
      exact ⟨c.1, by simp, by simp [ht.made_eq]⟩

/-- A removal goes to the target and nowhere else, and makes nothing. -/
theorem remove_tracked {s : Sequential π (Nat × σ)} {w : W × List (Event α)}
    (h : Tracked plans s w.2) :
    Tracked plans (remove (recorded C) s w).2.1 (remove (recorded C) s w).2.2.2 ∧
      match target w.2 with
      | none => remove (recorded C) s w = (.error .nothingToRemove, s, w)
      | some i => (remove (recorded C) s w).2.2.2 =
          w.2 ++ [.answered i (.remove (remove (recorded C) s w).1)] := by
  obtain ⟨pending, current, retired, last⟩ := s
  rcases h.target_cases with ⟨rfl, ht, rfl⟩ | ⟨c, rfl, ht, rfl, rfl⟩ | ⟨c, rfl, ht, rfl, -⟩
  · rw [ht]
    exact ⟨h, rfl⟩
  · rw [ht]
    exact ⟨h.removes ht _ rfl rfl rfl rfl, rfl⟩
  · rw [ht]
    exact ⟨h.removes ht _ rfl rfl rfl rfl, rfl⟩

theorem remove_lastYield {s : Sequential π (Nat × σ)} {w : W × List (Event α)}
    (h : Tracked plans s w.2) : lastYield (remove (recorded C) s w).2.2.2 = none := by
  have hr := (remove_tracked (C := C) h).2
  cases ht : target w.2 with
  | none =>
    rw [ht] at hr
    rw [hr]
    exact Option.map_eq_none_iff.mp ht
  | some i =>
    rw [ht] at hr
    rw [hr, lastYield_append]
    rfl

theorem perform_tracked (op : Cursor.Operation) {s : Sequential π (Nat × σ)}
    {w : W × List (Event α)} (h : Tracked plans s w.2) :
    Tracked plans ((cursor (recorded C) (recordedSupply α S)).perform op s w).2.1
        ((cursor (recorded C) (recordedSupply α S)).perform op s w).2.2.2 ∧
      (lastYield ((cursor (recorded C) (recordedSupply α S)).perform op s w).2.2.2).map Prod.snd =
        Cursor.latest [((cursor (recorded C) (recordedSupply α S)).perform op s w).1]
          ((lastYield w.2).map Prod.snd) := by
  cases op with
  | next =>
    have hs : Steps plans (lastYield w.2) (next (recorded C) (recordedSupply α S) s w) :=
      next_steps h
    refine ⟨hs.tracked, hs.yield.trans ?_⟩
    cases hx : (next (recorded C) (recordedSupply α S) s w).1 <;>
      simp [Cursor.perform, cursor, hx, Cursor.latest]
  | hasNext =>
    have ha : Advances plans (lastYield w.2) (advance (recorded C) (recordedSupply α S) s w) :=
      advance_advances h
    exact ⟨ha.tracked, congrArg _ ha.yield⟩
  | remove => exact ⟨(remove_tracked h).1, congrArg _ (remove_lastYield h)⟩

theorem run_tracked (ops : List Cursor.Operation) {s : Sequential π (Nat × σ)}
    {w : W × List (Event α)} (h : Tracked plans s w.2) :
    Tracked plans ((cursor (recorded C) (recordedSupply α S)).run ops s w).2.1
        ((cursor (recorded C) (recordedSupply α S)).run ops s w).2.2.2 ∧
      (lastYield ((cursor (recorded C) (recordedSupply α S)).run ops s w).2.2.2).map Prod.snd =
        Cursor.latest ((cursor (recorded C) (recordedSupply α S)).run ops s w).1
          ((lastYield w.2).map Prod.snd) := by
  induction ops generalizing s w with
  | nil => exact ⟨h, rfl⟩
  | cons op ops ih =>
    obtain ⟨hp, hl⟩ := perform_tracked (C := C) (S := S) op h
    obtain ⟨hr, hr'⟩ := ih hp
    exact ⟨hr, by rw [Cursor.run_cons, hr', hl]; rfl⟩

/-! ## Runs from the start -/

def recordedStart (α : Type) (S : Supply W π σ) (plans : List π) (w : W) :
    Sequential π (Nat × σ) × W × List (Event α) :=
  start (recordedSupply α S) plans (w, [])

def recordedRun (C : Cursor W σ α) (S : Supply W π σ) (plans : List π) (w : W)
    (ops : List Cursor.Operation) :
    List (Cursor.Answer α) × Sequential π (Nat × σ) × W × List (Event α) :=
  (cursor (recorded C) (recordedSupply α S)).run ops (recordedStart α S plans w).1
    (recordedStart α S plans w).2

theorem recordedRun_tracked (C : Cursor W σ α) (S : Supply W π σ) (plans : List π) (w : W)
    (ops : List Cursor.Operation) :
    Tracked plans (recordedRun C S plans w ops).2.1 (recordedRun C S plans w ops).2.2.2 ∧
      (lastYield (recordedRun C S plans w ops).2.2.2).map Prod.snd =
        Cursor.latest (recordedRun C S plans w ops).1 none := by
  have hnone : lastYield (recordedStart α S plans w).2.2 = none := by cases plans <;> rfl
  have hr := run_tracked (C := C) (S := S) ops (start_tracked S plans w)
  exact ⟨hr.1, by rw [← Option.map_none Prod.snd, ← hnone]; exact hr.2⟩

/-- Numbers and records change nothing in the answers, in the sub-cursors and in the world. -/
theorem recordedRun_alike (C : Cursor W σ α) (S : Supply W π σ) (plans : List π) (w : W)
    (ops : List Cursor.Operation) :
    Alike Eq (Image Eq fun c t => c.2 = t) (fun v u => v.1 = u) (recordedRun C S plans w ops)
      ((cursor C S).run ops (start S plans w).1 (start S plans w).2) := by
  have hplans : List.Forall₂ Eq plans plans := List.forall₂_eq_eq_eq ▸ rfl
  have hs := start_image (recordedSupply_image (α := α) S) hplans (w := (w, [])) rfl
  obtain ⟨has, hst, hwo⟩ :=
    (cursor_image (recorded_image C) (recordedSupply_image S)).run ops hs.1 hs.2
  rw [Cursor.map_answers_id] at has
  exact ⟨has.symm, hst, hwo⟩

end

end ClassListing.Sequential
