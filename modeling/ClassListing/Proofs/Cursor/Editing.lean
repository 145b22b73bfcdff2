import ClassListing.Cursor.Editable
import ClassListing.Proofs.Cursor.Reading

/-!
# Editing a list

The calls on a cursor over a list of its own, also removals that fail and calls past the end, never make it
compute a position that does not exist. What the cursor says to be left is what it yields from then
on, and its list is the one at the start without the elements that have been removed.
-/

namespace ClassListing

set_option autoImplicit false

variable {α : Type}

namespace Editable

/-! ## Calls -/

def cursor (α : Type) : Cursor Unit (Editable α) α where
  next c w := (c.next.1, c.next.2, w)
  hasNext c w := (c.hasNext, c, w)
  remove c w := (c.remove.1, c.remove.2, w)
  bound c := c.sizeHint.1

def reading (α : Type) : (cursor α).Reading where
  Valid := Valid
  left := remaining
  next {c} _ hc := ⟨c.next_remaining.1, hc.next, c.next_remaining.2⟩
  hasNext {c} _ hc := ⟨c.hasNext_remaining, hc, rfl⟩
  remove _ hc := ⟨hc.remove, remove_remaining hc⟩
  length_le _ := Nat.le_of_eq (List.length_drop ..)

inductive Call where
  | ask (op : Cursor.Operation)
  | sizeHint
  deriving DecidableEq, Repr

def Call.operation? : Call → Option Cursor.Operation
  | ask op => some op
  | sizeHint => none

inductive Reply (α : Type) where
  | answer (a : Cursor.Answer α)
  | sizeHint (bounds : Nat × Nat)

def Reply.answer? : Reply α → Option (Cursor.Answer α)
  | answer a => some a
  | sizeHint _ => none

def perform (call : Call) (c : Editable α) : Reply α × Editable α :=
  match call with
  | .ask op => (.answer ((cursor α).perform op c ()).1, ((cursor α).perform op c ()).2.1)
  | .sizeHint => (.sizeHint c.sizeHint, c)

def run : List Call → Editable α → List (Reply α) × Editable α
  | [], c => ([], c)
  | call :: calls, c =>
    let (reply, c) := perform call c
    let (replies, c) := run calls c
    (reply :: replies, c)

theorem run_cons (call : Call) (calls : List Call) (c : Editable α) :
    run (call :: calls) c =
      ((perform call c).1 :: (run calls (perform call c).2).1, (run calls (perform call c).2).2) :=
  rfl

/-- Asking how much is left changes nothing. -/
theorem run_eq (calls : List Call) (c : Editable α) :
    let r := (cursor α).run (calls.filterMap Call.operation?) c ()
    (run calls c).1.filterMap Reply.answer? = r.1 ∧ (run calls c).2 = r.2.1 := by
  induction calls generalizing c with
  | nil => exact ⟨rfl, rfl⟩
  | cons call calls ih =>
    obtain ⟨ha, hs⟩ := ih (perform call c).2
    cases call with
    | ask op =>
      refine ⟨?_, hs⟩
      exact congrArg (((cursor α).perform op c ()).1 :: ·) ha
    | sizeHint => exact ⟨ha, hs⟩

def yielded (replies : List (Reply α)) : List α :=
  (replies.filterMap Reply.answer?).filterMap Cursor.Answer.yielded

theorem count_operations (calls : List Call) :
    (calls.filterMap Call.operation?).count .next = calls.count (.ask .next) := by
  induction calls with
  | nil => rfl
  | cons call calls ih =>
    cases call with
    | ask op => simp [Call.operation?, List.count_cons, ih]
    | sizeHint => exact ih.trans (List.count_cons_of_ne (by decide)).symm

theorem yielded_run {c : Editable α} (hc : c.Valid) (calls : List Call) :
    yielded (run calls c).1 = c.remaining.take (calls.count (.ask .next)) := by
  rw [yielded, (run_eq calls c).1, (reading α).run_yielded _ () hc, count_operations]
  rfl

/-! ## Positions that do not exist -/

inductive Fault where
  | belowZero
  | outOfRange
  deriving DecidableEq, Repr

def subtract (a b : Nat) : Except Fault Nat :=
  if b ≤ a then .ok (a - b) else .error .belowZero

def takeOut (items : List α) (i : Nat) : Except Fault (List α) :=
  if i < items.length then .ok (items.eraseIdx i) else .error .outOfRange

def checkedSizeHint (c : Editable α) : Except Fault (Nat × Nat) := do
  let left ← subtract c.items.length c.position
  return (left, left)

def checkedRemove (c : Editable α) : Except Fault (Except RemoveError Unit × Editable α) :=
  if c.removable then do
    let position ← subtract c.position 1
    let items ← takeOut c.items position
    return (.ok (), ⟨items, position, false⟩)
  else return (.error .nothingToRemove, c)

/-- The calls with arithmetic that fails where a position does not exist. -/
def checkedPerform (call : Call) (c : Editable α) : Except Fault (Reply α × Editable α) :=
  match call with
  | .ask .next => return (.answer (.next c.next.1), c.next.2)
  | .ask .hasNext => return (.answer (.hasNext c.hasNext), c)
  | .ask .remove => do
    let (result, c) ← checkedRemove c
    return (.answer (.remove result), c)
  | .sizeHint => do
    let bounds ← checkedSizeHint c
    return (.sizeHint bounds, c)

def checkedRun : List Call → Editable α → Except Fault (List (Reply α) × Editable α)
  | [], c => return ([], c)
  | call :: calls, c => do
    let (reply, c) ← checkedPerform call c
    let (replies, c) ← checkedRun calls c
    return (reply :: replies, c)

theorem Valid.perform {c : Editable α} (hc : c.Valid) (call : Call) : (perform call c).2.Valid := by
  cases call with
  | ask op => exact (reading α).perform_valid op () hc
  | sizeHint => exact hc

theorem Valid.run {c : Editable α} (hc : c.Valid) (calls : List Call) : (run calls c).2.Valid := by
  induction calls generalizing c with
  | nil => exact hc
  | cons call calls ih => exact ih (hc.perform call)

theorem checkedSizeHint_eq_ok_iff (c : Editable α) :
    checkedSizeHint c = .ok c.sizeHint ↔ c.position ≤ c.items.length := by
  rw [checkedSizeHint, subtract]
  split
  · next hp => exact iff_of_true rfl hp
  · next hp => exact iff_of_false nofun hp

theorem checkedRemove_eq_ok_iff (c : Editable α) :
    checkedRemove c = .ok c.remove ↔
      (c.removable = true → 1 ≤ c.position ∧ c.position - 1 < c.items.length) := by
  rw [checkedRemove, remove]
  split
  · next hr =>
    rw [subtract]
    split
    · next hp =>
      change (takeOut c.items (c.position - 1) >>= _) = _ ↔ _
      rw [takeOut]
      split
      · next hl => exact iff_of_true rfl fun _ => ⟨hp, hl⟩
      · next hl => exact iff_of_false nofun fun h => hl (h hr).2
    · next hp => exact iff_of_false nofun fun h => hp (h hr).1
  · next hr => exact iff_of_true rfl fun h => absurd h hr

theorem Valid.checkedRemove_eq {c : Editable α} (hc : c.Valid) : checkedRemove c = .ok c.remove := by
  apply (checkedRemove_eq_ok_iff c).mpr
  intro hr
  have hp := hc.position_pos hr
  have hl := hc.position_le
  exact ⟨hp, by omega⟩

theorem checkedPerform_eq {c : Editable α} (hc : c.Valid) (call : Call) :
    checkedPerform call c = .ok (perform call c) := by
  cases call with
  | sizeHint =>
    rw [checkedPerform, (checkedSizeHint_eq_ok_iff c).mpr hc.position_le]
    rfl
  | ask op =>
    cases op with
    | next => rfl
    | hasNext => rfl
    | remove =>
      rw [checkedPerform, hc.checkedRemove_eq]
      rfl

theorem checkedRun_eq {c : Editable α} (hc : c.Valid) (calls : List Call) :
    checkedRun calls c = .ok (run calls c) := by
  induction calls generalizing c with
  | nil => rfl
  | cons call calls ih =>
    rw [checkedRun, checkedPerform_eq hc]
    change (checkedRun calls (perform call c).2 >>= _) = _
    rw [ih (hc.perform call)]
    rfl

/-! ## What is left of a list -/

/-- A list without the elements at some places. -/
def without (places : List Nat) (items : List α) : List α :=
  (items.zipIdx.filter fun x => x.2 ∉ places).map Prod.fst

theorem without_append (places : List Nat) (xs ys : List α) :
    without places (xs ++ ys) =
      without places xs ++ ((ys.zipIdx xs.length).filter fun x => x.2 ∉ places).map Prod.fst := by
  rw [without, without, List.zipIdx_append, List.filter_append, List.map_append, Nat.zero_add]

theorem without_append_of_lt {places : List Nat} {xs : List α} (h : ∀ i ∈ places, i < xs.length)
    (ys : List α) : without places (xs ++ ys) = without places xs ++ ys := by
  have hall : (ys.zipIdx xs.length).filter (fun x => x.2 ∉ places) = ys.zipIdx xs.length := by
    apply List.filter_eq_self.mpr
    intro x hx
    have hle : xs.length ≤ x.2 := (List.mem_zipIdx hx).1
    apply decide_eq_true
    intro hp
    have hlt := h x.2 hp
    omega
  rw [without_append, hall, List.zipIdx_map_fst]

theorem without_take_succ {places : List Nat} {items : List α} {k : Nat} (hk : k < items.length)
    (h : ∀ i ∈ places, i < k) :
    without places (items.take (k + 1)) = without places (items.take k) ++ [items[k]] := by
  have hlen : (items.take k).length = k := List.length_take_of_le (Nat.le_of_lt hk)
  rw [← List.take_append_getElem hk, without_append_of_lt]
  intro i hi
  rw [hlen]
  exact h i hi

theorem without_cons_take {items : List α} {k : Nat} (hk : k < items.length) (places : List Nat) :
    without (k :: places) (items.take (k + 1)) = without places (items.take k) := by
  have hlen : (items.take k).length = k := List.length_take_of_le (Nat.le_of_lt hk)
  have htake : without (k :: places) (items.take k) = without places (items.take k) := by
    apply congrArg (List.map Prod.fst)
    apply List.filter_congr
    intro x hx
    have hlt := List.snd_lt_of_mem_zipIdx hx
    have hne : x.2 ≠ k := by omega
    simp [hne]
  rw [← List.take_append_getElem hk, without_append, htake, hlen]
  simp

theorem without_eq_append {places : List Nat} {items : List α} {k : Nat} (hk : k ≤ items.length)
    (h : ∀ i ∈ places, i < k) :
    without places items = without places (items.take k) ++ items.drop k := by
  have hlen : (items.take k).length = k := List.length_take_of_le hk
  have happ : without places (items.take k ++ items.drop k) = _ :=
    without_append_of_lt (fun i hi => by rw [hlen]; exact h i hi) (items.drop k)
  rwa [List.take_append_drop] at happ

/-- What replies tell: how many elements have been yielded, the place of the one yielded since the last
removal, and the places of those removed. Places are places in the list at the start. -/
structure Account where
  taken : Nat
  last : Option Nat
  removed : List Nat
  deriving DecidableEq, Repr

namespace Account

def start : Account := ⟨0, none, []⟩

def add (t : Account) : Reply α → Account
  | .answer (.next (some _)) => ⟨t.taken + 1, some t.taken, t.removed⟩
  | .answer (.remove (.ok _)) => ⟨t.taken, none, t.last.toList ++ t.removed⟩
  | _ => t

def ofReplies (replies : List (Reply α)) : Account := replies.foldl add start

theorem taken_foldl (t : Account) (replies : List (Reply α)) :
    (replies.foldl add t).taken = t.taken + (yielded replies).length := by
  induction replies generalizing t with
  | nil => rfl
  | cons reply replies ih =>
    have hone : (t.add reply).taken = t.taken + (yielded [reply]).length := by
      cases reply with
      | sizeHint bounds => rfl
      | answer a =>
        cases a with
        | next x => cases x <;> rfl
        | hasNext more => rfl
        | remove r => cases r <;> rfl
    have happ : yielded (reply :: replies) = yielded [reply] ++ yielded replies := by
      rw [yielded, yielded, yielded, ← List.filterMap_append, ← List.filterMap_append,
        List.singleton_append]
    rw [List.foldl_cons, ih, hone, happ, List.length_append, Nat.add_assoc]

end Account

/-- A cursor stands in its list as the account says. -/
structure Stands (items : List α) (t : Account) (c : Editable α) : Prop where
  taken_le : t.taken ≤ items.length
  items_eq : c.items = without t.removed (items.take t.taken) ++ items.drop t.taken
  position_eq : c.position = (without t.removed (items.take t.taken)).length
  removable_eq : c.removable = t.last.isSome
  last : ∀ i ∈ t.last, i + 1 = t.taken ∧ i ∉ t.removed
  removed_lt : ∀ i ∈ t.removed, i < t.taken
  removed_nodup : t.removed.Nodup

namespace Stands

variable {items : List α} {t : Account} {c : Editable α}

theorem ofList (items : List α) : Stands items .start (ofList items) where
  taken_le := Nat.zero_le _
  items_eq := rfl
  position_eq := rfl
  removable_eq := rfl
  last := nofun
  removed_lt := nofun
  removed_nodup := .nil

theorem items_without (h : Stands items t c) : c.items = without t.removed items := by
  rw [h.items_eq, without_eq_append h.taken_le h.removed_lt]

theorem next (h : Stands items t c) :
    Stands items (t.add (.answer (.next c.next.1))) c.next.2 := by
  by_cases hy : t.taken < items.length
  · have hdrop : items.drop t.taken = items[t.taken] :: items.drop (t.taken + 1) :=
      List.drop_eq_getElem_cons hy
    have hp : c.position < c.items.length := by
      rw [h.items_eq, h.position_eq, hdrop, List.length_append, List.length_cons]
      omega
    have htake := without_take_succ hy h.removed_lt
    rw [next_of_lt hp]
    exact {
      taken_le := hy
      items_eq := by
        change c.items = without t.removed (items.take (t.taken + 1)) ++ items.drop (t.taken + 1)
        rw [h.items_eq, hdrop, htake, List.append_assoc, List.singleton_append]
      position_eq := by
        change c.position + 1 = (without t.removed (items.take (t.taken + 1))).length
        rw [h.position_eq, htake, List.length_append, List.length_singleton]
      removable_eq := rfl
      last := by
        rintro i ⟨⟩
        refine ⟨rfl, ?_⟩
        intro hm
        exact Nat.lt_irrefl _ (h.removed_lt _ hm)
      removed_lt := fun i hi => Nat.lt_succ_of_lt (h.removed_lt i hi)
      removed_nodup := h.removed_nodup }
  · have hend : c.items.length ≤ c.position := by
      apply Nat.le_of_eq
      rw [h.items_eq, h.position_eq, List.drop_eq_nil_of_le (Nat.le_of_not_lt hy), List.append_nil]
    rw [next_of_le hend]
    exact h

theorem last_lt (h : Stands items t c) {i : Nat} (hl : t.last = some i) : i < items.length := by
  have hi := (h.last i hl).1
  have hle := h.taken_le
  omega

theorem removed_lt_last (h : Stands items t c) {i : Nat} (hl : t.last = some i) :
    ∀ j ∈ t.removed, j < i := by
  obtain ⟨hi, hnew⟩ := h.last i hl
  intro j hj
  have hlt := h.removed_lt j hj
  have hne : j ≠ i := fun he => hnew (he ▸ hj)
  omega

/-- The element yielded last stands right before the position, and that is the one taken out. -/
theorem remove_of_last (h : Stands items t c) {i : Nat} (hl : t.last = some i) :
    let front := without (i :: t.removed) (items.take t.taken)
    c.remove = (.ok (), ⟨front ++ items.drop t.taken, front.length, false⟩) := by
  intro front
  have hi := (h.last i hl).1
  have hlt := h.last_lt hl
  have hr : c.removable = true := by
    rw [h.removable_eq, hl]
    rfl
  have hfront : front = without t.removed (items.take i) := by
    change without (i :: t.removed) (items.take t.taken) = _
    rw [← hi]
    exact without_cons_take hlt t.removed
  have hkept : without t.removed (items.take t.taken) = front ++ [items[i]] := by
    rw [hfront, ← hi]
    exact without_take_succ hlt (h.removed_lt_last hl)
  have hpos : c.position - 1 = front.length := by
    rw [h.position_eq, hkept, List.length_append, List.length_singleton, Nat.add_sub_cancel]
  have hitems : c.items.eraseIdx (c.position - 1) = front ++ items.drop t.taken := by
    rw [h.items_eq, hkept, hpos, List.append_assoc, List.singleton_append,
      List.eraseIdx_append_of_length_le (Nat.le_refl _), Nat.sub_self, List.eraseIdx_cons_zero]
  rw [Editable.remove, if_pos hr, hitems, hpos]

theorem remove_of_none (h : Stands items t c) (hl : t.last = none) :
    c.remove = (.error .nothingToRemove, c) := by
  have hr : c.removable = false := by
    rw [h.removable_eq, hl]
    rfl
  simp [Editable.remove, hr]

theorem remove_eq_ok_iff (h : Stands items t c) : c.remove.1 = .ok () ↔ t.last.isSome = true := by
  cases hl : t.last with
  | none => simp [h.remove_of_none hl]
  | some i => simp [h.remove_of_last hl]

theorem remove (h : Stands items t c) :
    Stands items (t.add (.answer (.remove c.remove.1) : Reply α)) c.remove.2 := by
  cases hl : t.last with
  | none =>
    rw [h.remove_of_none hl]
    exact h
  | some i =>
    obtain ⟨hi, hnew⟩ := h.last i hl
    have hadd : t.add (.answer (.remove (.ok ())) : Reply α) = ⟨t.taken, none, i :: t.removed⟩ := by
      simp [Account.add, hl]
    rw [h.remove_of_last hl, hadd]
    exact {
      taken_le := h.taken_le
      items_eq := rfl
      position_eq := rfl
      removable_eq := rfl
      last := nofun
      removed_lt := by
        intro j hj
        rcases List.mem_cons.mp hj with rfl | hj
        · exact Nat.lt_of_succ_le (Nat.le_of_eq hi)
        · exact h.removed_lt j hj
      removed_nodup := List.nodup_cons.mpr ⟨hnew, h.removed_nodup⟩ }

theorem perform (h : Stands items t c) (call : Call) :
    Stands items (t.add (perform call c).1) (perform call c).2 := by
  cases call with
  | sizeHint => exact h
  | ask op =>
    cases op with
    | next => exact h.next
    | hasNext => exact h
    | remove => exact h.remove

theorem run (h : Stands items t c) (calls : List Call) :
    Stands items ((run calls c).1.foldl Account.add t) (run calls c).2 := by
  induction calls generalizing t c with
  | nil => exact h
  | cons call calls ih =>
    rw [run_cons, List.foldl_cons]
    exact ih (h.perform call)

end Stands

/-- Calls in any order never lead to a position that does not exist: arithmetic that fails there gives the
same answers. An element can be removed if and only if one has been yielded since the last removal,
and then the position is behind it. Both bounds are the number of elements that calls to come yield
if there are enough of them. The elements are yielded in order, and the list is the one at the start
without exactly those that were yielded last when one was removed. -/
theorem calls_stay_within_list (items : List α) (calls : List Call) :
    let r := run calls (ofList items)
    let c := r.2
    let t := Account.ofReplies r.1
    checkedRun calls (ofList items) = .ok r ∧
      c.position ≤ c.items.length ∧
      (c.remove.1 = .ok () → 1 ≤ c.position) ∧
      (c.remove.1 = .ok () ↔ t.last.isSome = true) ∧
      c.sizeHint.1 = c.sizeHint.2 ∧
      (∀ more, (yielded (run more c).1).length = min (more.count (.ask .next)) c.sizeHint.1) ∧
      yielded r.1 = items.take t.taken ∧
      t.taken ≤ items.length ∧
      c.items = without t.removed items ∧
      t.removed.Nodup ∧
      ∀ i ∈ t.removed, i < t.taken := by
  intro r c t
  have hstart := valid_ofList items
  have hs : Stands items t c := (Stands.ofList items).run calls
  have hv : c.Valid := hstart.run calls
  have hpos : c.remove.1 = .ok () → 1 ≤ c.position := by
    intro hok
    apply hv.position_pos
    rw [hs.removable_eq]
    exact hs.remove_eq_ok_iff.mp hok
  have hleft : ∀ more, (yielded (run more c).1).length =
      min (more.count (.ask .next)) c.sizeHint.1 := by
    intro more
    rw [yielded_run hv, List.length_take, remaining, List.length_drop]
    rfl
  have hyielded : yielded r.1 = items.take t.taken := by
    have htake : yielded r.1 = items.take (calls.count (.ask .next)) := yielded_run hstart calls
    have hcount : t.taken = 0 + (yielded r.1).length := Account.taken_foldl .start r.1
    rw [hcount, htake, Nat.zero_add, List.length_take, ← List.take_eq_take_min]
  exact ⟨checkedRun_eq hstart calls, hv.position_le, hpos, hs.remove_eq_ok_iff, rfl, hleft, hyielded,
    hs.taken_le, hs.items_without, hs.removed_nodup, hs.removed_lt⟩

end Editable

end ClassListing
