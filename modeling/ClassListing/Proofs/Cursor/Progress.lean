import ClassListing.Proofs.Cursor.Demand

/-!
# What has been yielded tells what has been made

A sequence has made one sub-cursor more when everything from the ones before has been yielded and it is asked
again. The worlds in which plans have known elements may be a part of all worlds, as long as no call
leads out of it.
-/

namespace ClassListing

set_option autoImplicit false

variable {W π σ α : Type}

/-- In good worlds plans are made into sub-cursors that are going to yield the elements of the plan. -/
structure Supply.Furnishes {C : Cursor W σ α} (S : Supply W π σ) (R : C.Reading) (Good : W → Prop)
    (elements : π → List α) : Prop where
  valid : ∀ p {w}, Good w → R.Valid (S.build p w).1
  left : ∀ p {w}, Good w → R.left (S.build p w).1 = elements p
  build : ∀ p {w}, Good w → Good (S.build p w).2
  ended : ∀ {w}, Good w → Good (S.ended w)
  perform : ∀ op s {w}, Good w → Good (C.perform op s w).2.2

namespace Sequential

/-! ## The elements of the first plans -/

def upTo (elements : π → List α) (plans : List π) (n : Nat) : List α :=
  (plans.take n).flatMap elements

section

variable {elements : π → List α} {plans pending : List π} {n : Nat}

theorem upTo_succ {p : π} (h : plans.drop n = p :: pending) :
    upTo elements plans (n + 1) = upTo elements plans n ++ elements p := by
  have hp : plans[n]? = some p := by rw [← List.head?_drop, h, List.head?_cons]
  rw [upTo, List.take_add_one, hp, List.flatMap_append]
  simp [upTo]

theorem upTo_of_le (h : plans.length ≤ n) : upTo elements plans n = plans.flatMap elements := by
  rw [upTo, List.take_of_length_le h]

theorem upTo_isPrefix {m : Nat} (h : m ≤ n) : upTo elements plans m <+: upTo elements plans n := by
  obtain ⟨k, rfl⟩ := Nat.exists_eq_add_of_le h
  refine ⟨((plans.drop m).take k).flatMap elements, ?_⟩
  rw [upTo, upTo, ← List.flatMap_append, ← List.take_add]

end

/-! ## Sub-cursors with known elements -/

/-- The elements yielded are those of the sub-cursors before the current one, and some of its own. -/
structure Within {C : Cursor W σ α} (R : C.Reading) (elements : π → List α) (plans : List π)
    (yielded : List α) (c : Nat × σ) : Prop where
  valid : R.Valid c.2
  lt : c.1 < plans.length
  before : upTo elements plans c.1 <+: yielded
  left : yielded ++ R.left c.2 = upTo elements plans (c.1 + 1)

structure Progress {C : Cursor W σ α} (R : C.Reading) (Good : W → Prop) (elements : π → List α)
    (plans : List π) (yielded : List α) (s : Sequential π (Nat × σ)) (w : W) : Prop where
  good : Good w
  within : ∀ c, s.current = some c → Within R elements plans yielded c
  ended : s.current = none → yielded = plans.flatMap elements

variable {C : Cursor W σ α} {S : Supply W π σ} {R : C.Reading} {Good : W → Prop}
  {elements : π → List α} {plans : List π} {yielded : List α}

namespace Within

variable {c : Nat × σ}

theorem of_left (h : Within R elements plans yielded c) {t : σ} (ht : R.Valid t)
    (hl : R.left t = R.left c.2) : Within R elements plans yielded (c.1, t) :=
  ⟨ht, h.lt, h.before, by rw [hl, h.left]⟩

theorem yields (h : Within R elements plans yielded c) {x : α} {xs : List α}
    (hx : R.left c.2 = x :: xs) {t : σ} (ht : R.Valid t) (hl : R.left t = xs) :
    Within R elements plans (yielded ++ [x]) (c.1, t) := by
  refine ⟨ht, h.lt, h.before.trans (List.prefix_append ..), ?_⟩
  rw [hl, List.append_assoc, ← h.left, hx]
  rfl

/-- From a sub-cursor found exhausted everything has been yielded. -/
theorem yielded_eq (h : Within R elements plans yielded c) {w : W}
    (hm : (C.hasNext c.2 w).1 = false) : yielded = upTo elements plans (c.1 + 1) := by
  have hnil : R.left c.2 = [] := by simpa [R.hasNext_eq w h.valid] using hm
  rw [← h.left, hnil, List.append_nil]

/-- The sub-cursor made next has yielded nothing so far. -/
theorem of_made (h : Within R elements plans yielded c) (hS : S.Furnishes R Good elements) {w v : W}
    (hv : Good v) (hm : (C.hasNext c.2 w).1 = false) {p : π} {pending : List π}
    (hp : plans.drop (c.1 + 1) = p :: pending) {n : Nat} (hn : n = c.1 + 1) :
    Within R elements plans yielded (n, (S.build p v).1) := by
  subst hn
  have hall := h.yielded_eq hm
  have hlen := congrArg List.length hp
  rw [List.length_drop, List.length_cons] at hlen
  exact ⟨hS.valid p hv, by omega, hall ▸ List.prefix_rfl,
    by rw [hall, hS.left p hv, upTo_succ hp]⟩

/-- The sub-cursors made first are those whose elements have all been yielded, and one more. -/
theorem lt_iff (h : Within R elements plans yielded c) (hne : R.left c.2 ≠ []) (i : Nat) :
    i + 1 < c.1 + 1 ↔ i + 1 < plans.length ∧ upTo elements plans (i + 1) <+: yielded := by
  constructor
  · intro hi
    have hlt := h.lt
    exact ⟨by omega, (upTo_isPrefix (by omega)).trans h.before⟩
  · rintro ⟨-, hp⟩
    by_contra hge
    have hall : yielded ++ R.left c.2 <+: yielded :=
      h.left ▸ (upTo_isPrefix (by omega)).trans hp
    have hlen := hall.length_le
    rw [List.length_append] at hlen
    exact hne (List.length_eq_zero_iff.mp (by omega))

end Within

/-- What advancing comes to: there is an element in the current sub-cursor, if there is one. -/
structure Reaches (R : C.Reading) (Good : W → Prop) (elements : π → List α) (plans : List π)
    (yielded : List α) (r : Bool × Sequential π (Nat × σ) × W × List (Event α)) : Prop where
  progress : Progress R Good elements plans yielded r.2.1 r.2.2.1
  more : ∀ c, r.2.1.current = some c → R.left c.2 ≠ []

theorem reaches_of_more (hS : S.Furnishes R Good elements) (pending : List π) {c : Nat × σ}
    (retired : Option (Nat × σ)) (last : LastFrom) {w : W × List (Event α)} (hw : Good w.1)
    (hc : Within R elements plans yielded c) (hm : ((recorded C).hasNext c w).1 = true) :
    Reaches R Good elements plans yielded
      (advanceFrom (recorded C) (recordedSupply α S) pending c retired last w) := by
  have hv := R.hasNext_valid w.1 hc.valid
  have hl := R.hasNext_left w.1 hc.valid
  have hsome : (R.left c.2).head?.isSome = true := (R.hasNext_eq w.1 hc.valid).symm.trans hm
  rw [advanceFrom_of_more hm]
  refine ⟨⟨hS.perform .hasNext c.2 hw, ?_, by simp⟩, ?_⟩
  · rintro _ ⟨⟩
    exact hc.of_left hv hl
  · rintro _ ⟨⟩ hnil
    rw [hl.symm.trans hnil] at hsome
    cases hsome

theorem advanceFrom_reaches (hS : S.Furnishes R Good elements) (pending : List π) {c : Nat × σ}
    {retired : Option (Nat × σ)} {last : LastFrom} {w : W × List (Event α)}
    (ht : Tracked plans ⟨pending, some c, retired, last⟩ w.2) (hw : Good w.1)
    (hc : Within R elements plans yielded c) :
    Reaches R Good elements plans yielded
      (advanceFrom (recorded C) (recordedSupply α S) pending c retired last w) := by
  induction pending generalizing c retired last w with
  | nil =>
    cases hm : ((recorded C).hasNext c w).1 with
    | true => exact reaches_of_more hS [] retired last hw hc hm
    | false =>
      have hw' : Good (C.hasNext c.2 w.1).2.2 := hS.perform .hasNext c.2 hw
      rw [advanceFrom_nil hm]
      refine ⟨⟨hS.ended hw', by simp, fun _ => ?_⟩, by simp⟩
      rw [hc.yielded_eq hm, upTo_of_le (List.drop_eq_nil_iff.mp ht.drop_succ)]
  | cons p ps ih =>
    cases hm : ((recorded C).hasNext c w).1 with
    | true => exact reaches_of_more hS (p :: ps) retired last hw hc hm
    | false =>
      have hw' : Good (C.hasNext c.2 w.1).2.2 := hS.perform .hasNext c.2 hw
      obtain ⟨ht', hend⟩ := ht.tested (C.hasNext c.2 w.1).2.1 (C.hasNext c.2 w.1).1
      rw [advanceFrom_cons hm]
      exact ih (ht'.make (C.hasNext c.2 w.1).2.1 _ (hend hm)) (hS.build p hw')
        (hc.of_made hS hw' hm ht'.drop_succ (ht'.made_eq.trans rfl))

theorem advance_reaches (hS : S.Furnishes R Good elements) {s : Sequential π (Nat × σ)}
    {w : W × List (Event α)} (ht : Tracked plans s w.2)
    (hp : Progress R Good elements plans yielded s w.1) :
    Reaches R Good elements plans yielded (advance (recorded C) (recordedSupply α S) s w) := by
  obtain ⟨pending, current, retired, last⟩ := s
  cases current with
  | none => exact ⟨hp, by simp [advance]⟩
  | some c => exact advanceFrom_reaches hS pending ht hp.good (hp.within c rfl)

/-- A call of `next` takes an element out of the sub-cursor advanced to, which stays the newest. -/
theorem next_reaches (hS : S.Furnishes R Good elements) {s : Sequential π (Nat × σ)}
    {w : W × List (Event α)} (ht : Tracked plans s w.2)
    (hp : Progress R Good elements plans yielded s w.1) :
    Progress R Good elements plans
        (yielded ++ (next (recorded C) (recordedSupply α S) s w).1.toList)
        (next (recorded C) (recordedSupply α S) s w).2.1
        (next (recorded C) (recordedSupply α S) s w).2.2.1 ∧
      made (next (recorded C) (recordedSupply α S) s w).2.2.2 =
        made (advance (recorded C) (recordedSupply α S) s w).2.2.2 := by
  have hr := advance_reaches hS ht hp
  have hm : Advances plans (lastYield w.2) (advance (recorded C) (recordedSupply α S) s w) :=
    advance_advances ht
  unfold next
  generalize advance (recorded C) (recordedSupply α S) s w = r at hr hm
  obtain ⟨more, ⟨pending, current, retired, last⟩, v⟩ := r
  obtain ⟨⟨hgood, hwithin, hended⟩, hne⟩ := hr
  have hmore := hm.more
  simp only at hgood hwithin hended hne hmore
  subst hmore
  cases current with
  | none => exact ⟨⟨hgood, by simp, by simpa using hended⟩, rfl⟩
  | some c =>
    have hc := hwithin c rfl
    obtain ⟨x, xs, hx⟩ := List.exists_cons_of_ne_nil (hne c rfl)
    obtain ⟨hfirst, hvalid, hrest⟩ := R.next v.1 hc.valid
    have hgood' : Good (C.next c.2 v.1).2.2 := hS.perform .next c.2 hgood
    rw [hx] at hfirst hrest
    simp only [Option.isSome_some, recorded_next, hfirst, List.head?_cons]
    refine ⟨⟨hgood', ?_, by simp⟩, made_append_answered ..⟩
    rintro _ ⟨⟩
    exact hc.yields hx hvalid hrest

theorem remove_progress (hS : S.Furnishes R Good elements) {s : Sequential π (Nat × σ)}
    {w : W × List (Event α)} (hp : Progress R Good elements plans yielded s w.1) :
    Progress R Good elements plans yielded (remove (recorded C) s w).2.1
      (remove (recorded C) s w).2.2.1 := by
  obtain ⟨pending, current, retired, last⟩ := s
  obtain ⟨hgood, hwithin, hended⟩ := hp
  cases last with
  | nothing => exact ⟨hgood, hwithin, hended⟩
  | current =>
    cases current with
    | none => exact ⟨hgood, hwithin, hended⟩
    | some c =>
      have hc := hwithin c rfl
      refine ⟨hS.perform .remove c.2 hgood, ?_, by simp [remove]⟩
      rintro _ ⟨⟩
      exact hc.of_left (R.remove_valid w.1 hc.valid) (R.remove_left w.1 hc.valid)
  | retired =>
    cases retired with
    | none => exact ⟨hgood, hwithin, hended⟩
    | some c => exact ⟨hS.perform .remove c.2 hgood, hwithin, hended⟩

theorem perform_progress (hS : S.Furnishes R Good elements) (op : Cursor.Operation)
    {s : Sequential π (Nat × σ)} {w : W × List (Event α)} (ht : Tracked plans s w.2)
    (hp : Progress R Good elements plans yielded s w.1) :
    Progress R Good elements plans
      (yielded ++
        ((cursor (recorded C) (recordedSupply α S)).perform op s w).1.yielded.toList)
      ((cursor (recorded C) (recordedSupply α S)).perform op s w).2.1
      ((cursor (recorded C) (recordedSupply α S)).perform op s w).2.2.1 := by
  cases op with
  | next => exact (next_reaches hS ht hp).1
  | hasNext => exact (List.append_nil yielded).symm ▸ (advance_reaches hS ht hp).progress
  | remove => exact (List.append_nil yielded).symm ▸ remove_progress hS hp

theorem run_progress (hS : S.Furnishes R Good elements) (ops : List Cursor.Operation)
    {s : Sequential π (Nat × σ)} {w : W × List (Event α)} (ht : Tracked plans s w.2)
    (hp : Progress R Good elements plans yielded s w.1) :
    Progress R Good elements plans
      (yielded ++ ((cursor (recorded C) (recordedSupply α S)).run ops s w).1.filterMap
        Cursor.Answer.yielded)
      ((cursor (recorded C) (recordedSupply α S)).run ops s w).2.1
      ((cursor (recorded C) (recordedSupply α S)).run ops s w).2.2.1 := by
  induction ops generalizing yielded s w with
  | nil => simpa using hp
  | cons op ops ih =>
    have hrest := ih (perform_tracked op ht).1 (perform_progress hS op ht hp)
    rw [Cursor.run_cons]
    cases hy : ((cursor (recorded C) (recordedSupply α S)).perform op s w).1.yielded <;>
      simpa [hy] using hrest

theorem start_progress (hS : S.Furnishes R Good elements) (plans : List π) {w : W} (hw : Good w) :
    Progress R Good elements plans [] (recordedStart α S plans w).1
      (recordedStart α S plans w).2.1 := by
  cases plans with
  | nil => exact ⟨hS.ended hw, by simp [recordedStart, start], fun _ => rfl⟩
  | cons p ps =>
    refine ⟨hS.build p hw, ?_, by simp [recordedStart, start]⟩
    rintro _ ⟨⟩
    exact ⟨hS.valid p hw, Nat.succ_pos _, List.nil_prefix, by simp [upTo, hS.left p hw]⟩

/-- A call that reads makes the sub-cursors up to the first one whose elements have not all been yielded. -/
theorem made_iff (hS : S.Furnishes R Good elements) {op : Cursor.Operation} (hop : op ≠ .remove)
    {s : Sequential π (Nat × σ)} {w : W × List (Event α)} (ht : Tracked plans s w.2)
    (hp : Progress R Good elements plans yielded s w.1) (i : Nat) :
    i + 1 < made ((cursor (recorded C) (recordedSupply α S)).perform op s w).2.2.2 ↔
      i + 1 < plans.length ∧ upTo elements plans (i + 1) <+: yielded := by
  have hmade : made ((cursor (recorded C) (recordedSupply α S)).perform op s w).2.2.2 =
      made (advance (recorded C) (recordedSupply α S) s w).2.2.2 := by
    cases op with
    | next => exact (next_reaches hS ht hp).2
    | hasNext => rfl
    | remove => exact absurd rfl hop
  have hr := advance_reaches hS ht hp
  have htracked : Tracked plans (advance (recorded C) (recordedSupply α S) s w).2.1
      (advance (recorded C) (recordedSupply α S) s w).2.2.2 := (advance_advances ht).tracked
  rw [hmade]
  generalize advance (recorded C) (recordedSupply α S) s w = r at hr htracked
  obtain ⟨more, ⟨pending, current, retired, last⟩, v⟩ := r
  cases current with
  | none =>
    have hall := htracked.ended (htracked.current_eq_none.mp rfl)
    rw [hall, hr.progress.ended rfl, ← upTo_of_le (Nat.le_refl plans.length)]
    exact ⟨fun hi => ⟨hi, upTo_isPrefix (Nat.le_of_lt hi)⟩, And.left⟩
  | some c =>
    rw [htracked.made_eq]
    exact (hr.progress.within c rfl).lt_iff (hr.more c rfl) i

/-! ## Sequences on demand -/

theorem recordedRun_concat (C : Cursor W σ α) (S : Supply W π σ) (plans : List π) (w : W)
    (ops : List Cursor.Operation) (op : Cursor.Operation) :
    (recordedRun C S plans w (ops ++ [op])).2 =
      ((cursor (recorded C) (recordedSupply α S)).perform op (recordedRun C S plans w ops).2.1
        (recordedRun C S plans w ops).2.2).2 :=
  Cursor.run_concat ..

/-- The calls of a run that read make the sub-cursors up to the first one that has not yielded everything. -/
theorem made_recordedRun_iff (hS : S.Furnishes R Good elements) (plans : List π) {w : W} (hw : Good w)
    (ops : List Cursor.Operation) {op : Cursor.Operation} (hop : op ≠ .remove) (i : Nat) :
    i + 1 < made (recordedRun C S plans w (ops ++ [op])).2.2.2 ↔
      i + 1 < plans.length ∧ upTo elements plans (i + 1) <+:
        (recordedRun C S plans w ops).1.filterMap Cursor.Answer.yielded := by
  rw [recordedRun_concat]
  exact made_iff hS hop (recordedRun_tracked C S plans w ops).1
    (run_progress hS ops (start_tracked S plans w) (start_progress hS plans hw)) i

/-- What a sequence has made and what it holds, from its answers and the record. -/
structure OnDemand (C : Cursor W σ α) (S : Supply W π σ) (plans : List π)
    (r : List (Cursor.Answer α) × Sequential π (Nat × σ) × W × List (Event α)) : Prop where
  /-- Sub-cursors are made where the one before has just been found exhausted, and none when no plan was left. -/
  orderly : Orderly r.2.2.2
  made_le : made r.2.2.2 ≤ plans.length
  pending : r.2.1.pending = plans.drop (made r.2.2.2)
  exhausted : ∀ i, i + 1 < made r.2.2.2 → lastReading i r.2.2.2 = some (.hasNext false)
  /-- What a further call yields comes from the sub-cursor made last. -/
  yields : ∀ x ∈ (next (recorded C) (recordedSupply α S) r.2.1 r.2.2).1,
    ∃ i, (next (recorded C) (recordedSupply α S) r.2.1 r.2.2).2.2.2.getLast? =
        some (.answered i (.next (some x))) ∧
      made (next (recorded C) (recordedSupply α S) r.2.1 r.2.2).2.2.2 = i + 1
  /-- A removal calls the sub-cursor of the element that it is about, and does nothing else. -/
  removes : match target r.2.2.2 with
    | none => remove (recorded C) r.2.1 r.2.2 = (.error .nothingToRemove, r.2)
    | some i => (remove (recorded C) r.2.1 r.2.2).2.2.2 =
        r.2.2.2 ++ [.answered i (.remove (remove (recorded C) r.2.1 r.2.2).1)]
  latest : (lastYield r.2.2.2).map Prod.snd = Cursor.latest r.1 none
  current : r.2.1.current.map Prod.fst = newest r.2.2.2
  retired : r.2.1.retired.map Prod.fst = (target r.2.2.2).filter fun i => newest r.2.2.2 ≠ some i
  last_current : r.2.1.last = .current → r.2.1.current.isSome
  last_retired : r.2.1.last = .retired → r.2.1.retired.isSome

theorem recordedRun_onDemand (C : Cursor W σ α) (S : Supply W π σ) (plans : List π) (w : W)
    (ops : List Cursor.Operation) : OnDemand C S plans (recordedRun C S plans w ops) := by
  obtain ⟨ht, hlatest⟩ := recordedRun_tracked C S plans w ops
  exact {
    orderly := ht.orderly
    made_le := ht.made_le
    pending := ht.pending
    exhausted := fun _ hi => ht.orderly.exhausted hi
    yields := (next_steps ht).given
    removes := (remove_tracked ht).2
    latest := hlatest
    current := ht.current
    retired := ht.retired
    last_current := ht.current_isSome
    last_retired := ht.retired_isSome }

end Sequential

end ClassListing
