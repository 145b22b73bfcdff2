import ClassListing.Proofs.Cursor.Occurrence

/-!
# How calls on a sequence are to be answered

A course knows the elements to come with where they stand, the one that a removal would be about, and the
spots that have been removed from. Calls that are answered without handing out or removing anything
are quiet: they leave a course as it is.
-/

namespace ClassListing

set_option autoImplicit false

variable {α β : Type}

namespace Cursor

/-- The element handed out last, if no removal has been asked for since. -/
def latest (as : List (Answer α)) (before : Option α) : Option α :=
  as.foldl (fun x a => match a with
    | .next (some y) => some y
    | .remove _ => none
    | _ => x) before

theorem latest_map (f : β → α) (as : List (Answer β)) (x : Option β) :
    latest (as.map (Answer.map f)) (x.map f) = (latest as x).map f := by
  induction as generalizing x with
  | nil => rfl
  | cons a as ih =>
    cases a with
    | next y => cases y with
      | none => exact ih x
      | some y => exact ih (some y)
    | hasNext more => exact ih x
    | remove r => exact ih none

/-- An answer that tells nothing but whether there is more, or that there is not. -/
def Answer.quiet : Answer α → Bool
  | next x => x.isNone
  | hasNext _ => true
  | remove _ => false

def loud : List Operation → List (Answer α) → List Operation
  | op :: ops, a :: as => if a.quiet then loud ops as else op :: loud ops as
  | _, _ => []

theorem Answer.quiet_map (f : β → α) (a : Answer β) : (a.map f).quiet = a.quiet := by
  cases a <;> simp [Answer.map, quiet]

theorem filter_quiet_map (f : β → α) (as : List (Answer β)) :
    (as.map (Answer.map f)).filter (!·.quiet) = (as.filter (!·.quiet)).map (Answer.map f) := by
  rw [List.filter_map]
  simp only [Function.comp_def, Answer.quiet_map]

theorem loud_map (f : β → α) (ops : List Operation) (as : List (Answer β)) :
    loud ops (as.map (Answer.map f)) = loud ops as := by
  induction ops generalizing as with
  | nil => cases as <;> rfl
  | cons op ops ih =>
    cases as with
    | nil => rfl
    | cons a as => simp only [List.map_cons, loud, Answer.quiet_map, ih]

end Cursor

namespace CursorExpression

/-! ## Contents of editable lists -/

/-- What the editable lists of an expression hold: those not made so far are as they are planned. -/
def Plan.contents (n : Nat) (p : Plan α n) (w : Ledger α) : List (List α) :=
  w.lists ++ (Plan.lists n p).drop w.lists.length

def Plan.survivors (n : Nat) (p : Plan α n) (removed : List Spot) : List (List (Occurrence α)) :=
  (Plan.occurrenceLists n p).map (List.filter fun o => o.spot ∉ removed)

theorem Plan.survivors_nil (n : Nat) (p : Plan α n) :
    Plan.survivors n p [] = Plan.occurrenceLists n p := by
  refine (List.map_congr_left fun items _ => ?_).trans (List.map_id _)
  exact List.filter_eq_self.mpr (by simp)

theorem Plan.survivors_cons (n : Nat) (p : Plan α n) (spot : Spot) (removed : List Spot) :
    Plan.survivors n p (spot :: removed) =
      (Plan.survivors n p removed).map (List.filter fun o => o.spot ≠ spot) := by
  simp only [Plan.survivors, List.map_map]
  refine List.map_congr_left fun items _ => ?_
  simp [List.filter_filter]

theorem Plan.distinct_survivors (n : Nat) (p : Plan α n) (removed : List Spot) :
    Distinct (Plan.survivors n p removed).flatten := by
  rw [Plan.survivors, ← List.filter_flatten]
  exact (Plan.distinct_lists n [] p).filter _

theorem Distinct.filter_eq {xs ys : List (Occurrence α)} {o : Occurrence α}
    (h : Distinct (xs ++ o :: ys)) :
    (xs ++ o :: ys).filter (fun o' => o'.spot ≠ o.spot) = xs ++ ys := by
  obtain ⟨-, hys, hxs⟩ := List.pairwise_append.mp h
  have hx : ∀ o' ∈ xs, o'.spot ≠ o.spot := fun o' ho' => hxs o' ho' o (.head _)
  have hy : ∀ o' ∈ ys, o'.spot ≠ o.spot := fun o' ho' => ((List.pairwise_cons.mp hys).1 o' ho').symm
  rw [List.filter_append, List.filter_cons_of_neg (by simp),
    List.filter_eq_self.mpr (by simpa using hx), List.filter_eq_self.mpr (by simpa using hy)]

/-- Removing an occurrence takes it out of its list, and nothing else out of any list. -/
theorem Plan.survivors_cons_of_eq {n : Nat} {p : Plan α n} {removed : List Spot}
    {before after : List (List (Occurrence α))} {front back : List (Occurrence α)}
    {o : Occurrence α}
    (h : Plan.survivors n p removed = before ++ (front ++ o :: back) :: after) :
    Plan.survivors n p (o.spot :: removed) = before ++ (front ++ back) :: after := by
  have hd := Plan.distinct_survivors n p removed
  rw [Plan.survivors_cons, h]
  rw [h] at hd
  simp only [List.flatten_append, List.flatten_cons, Distinct, List.pairwise_append] at hd
  -- no other list has an element at this spot, so all others pass the filter unchanged
  obtain ⟨-, ⟨hitems, -, hafter⟩, hbefore⟩ := hd
  have ho : o ∈ front ++ o :: back := List.mem_append_right _ (.head _)
  have hb : ∀ items ∈ before, items.filter (fun o' => o'.spot ≠ o.spot) = items := by
    intro items hi
    refine List.filter_eq_self.mpr fun o' ho' => ?_
    exact decide_eq_true
      (hbefore o' (List.mem_flatten_of_mem hi ho') o (List.mem_append_left _ ho))
  have ha : ∀ items ∈ after, items.filter (fun o' => o'.spot ≠ o.spot) = items := by
    intro items hi
    refine List.filter_eq_self.mpr fun o' ho' => ?_
    exact decide_eq_true (hafter o ho o' (List.mem_flatten_of_mem hi ho')).symm
  rw [List.map_append, List.map_cons, List.map_congr_left hb, List.map_congr_left ha,
    Distinct.filter_eq (List.pairwise_append.mpr hitems), List.map_id', List.map_id']

/-! ## Courses -/

/-- What is known after some calls on a sequence. -/
structure Course (α : Type) where
  upcoming : List (Occurrence α)
  /-- The element yielded since the last call of `remove`. -/
  last : Option (Occurrence α)
  removed : List Spot

namespace Course

def start {n : Nat} (p : Plan α n) : Course α := ⟨Plan.occurrences n p, none, []⟩

def next (c : Course α) : Option (Occurrence α) × Course α :=
  match c.upcoming with
  | [] => (none, c)
  | o :: os => (some o, { c with upcoming := os, last := some o })

def remove (c : Course α) : Except RemoveError Unit × Course α :=
  match c.last with
  | none => (.error .nothingToRemove, c)
  | some o =>
    if o.removable then (.ok (), { c with last := none, removed := o.spot :: c.removed })
    else (.error .notSupported, { c with last := none })

def cursor (α : Type) : Cursor Unit (Course α) (Occurrence α) where
  next c w := (c.next.1, c.next.2, w)
  hasNext c w := (!c.upcoming.isEmpty, c, w)
  remove c w := (c.remove.1, c.remove.2, w)
  bound c := c.upcoming.length

theorem last_perform (op : Cursor.Operation) (c : Course α) :
    ((cursor α).perform op c ()).2.1.last =
      Cursor.latest [((cursor α).perform op c ()).1] c.last := by
  cases op with
  | next => cases h : c.upcoming <;> simp [Cursor.perform, cursor, next, h, Cursor.latest]
  | hasNext => rfl
  | remove =>
    cases h : c.last with
    | none => simp [Cursor.perform, cursor, remove, h, Cursor.latest]
    | some o => cases hr : o.removable <;> simp [Cursor.perform, cursor, remove, h, hr, Cursor.latest]

theorem last_run (ops : List Cursor.Operation) (c : Course α) :
    ((cursor α).run ops c ()).2.1.last = Cursor.latest ((cursor α).run ops c ()).1 c.last := by
  induction ops generalizing c with
  | nil => rfl
  | cons op ops ih =>
    have hl := last_perform op c
    rw [Cursor.run_cons, ih, hl]
    rfl

theorem perform_quiet {op : Cursor.Operation} {c : Course α}
    (h : ((cursor α).perform op c ()).1.quiet = true) : ((cursor α).perform op c ()).2.1 = c := by
  cases op with
  | next => cases hu : c.upcoming <;> simp_all [Cursor.perform, cursor, next, Cursor.Answer.quiet]
  | hasNext => rfl
  | remove => simp [Cursor.perform, Cursor.Answer.quiet] at h

/-- Without the calls that are answered quietly the others are answered the same. -/
theorem run_loud (ops : List Cursor.Operation) (c : Course α) :
    (cursor α).run (Cursor.loud ops ((cursor α).run ops c ()).1) c () =
      (((cursor α).run ops c ()).1.filter (!·.quiet), ((cursor α).run ops c ()).2) := by
  induction ops generalizing c with
  | nil => rfl
  | cons op ops ih =>
    simp only [Cursor.run_cons, Cursor.loud]
    cases hq : ((cursor α).perform op c ()).1.quiet with
    | true =>
      have hc := perform_quiet hq
      simp only [if_true, hc, ih, List.filter_cons, hq, Bool.not_true, Bool.false_eq_true, if_false]
    | false =>
      simp only [Bool.false_eq_true, if_false, Cursor.run_cons, ih, List.filter_cons, hq,
        Bool.not_false, if_true]

end Course

end CursorExpression

end ClassListing
