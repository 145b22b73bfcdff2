import ClassListing.Cursor

/-!
# Cursors read as lists

A reading says which elements a state of a cursor is still going to yield. Whatever has been asked of a
cursor before, its answers are then those of the list: every element once and in order, and a test
for more that tells what the next call gives.
-/

namespace ClassListing.Cursor

set_option autoImplicit false

variable {W σ α : Type}

/-! ## Sequences of calls -/

inductive Operation where
  | next
  | hasNext
  | remove
  deriving DecidableEq, Repr

inductive Answer (α : Type) where
  | next (x : Option α)
  | hasNext (more : Bool)
  | remove (r : Except RemoveError Unit)

def Answer.yielded : Answer α → Option α
  | next x => x
  | _ => none

def perform (C : Cursor W σ α) (op : Operation) (s : σ) (w : W) : Answer α × σ × W :=
  match op with
  | .next => (.next (C.next s w).1, (C.next s w).2)
  | .hasNext => (.hasNext (C.hasNext s w).1, (C.hasNext s w).2)
  | .remove => (.remove (C.remove s w).1, (C.remove s w).2)

def run (C : Cursor W σ α) : List Operation → σ → W → List (Answer α) × σ × W
  | [], s, w => ([], s, w)
  | op :: ops, s, w =>
    let (a, s, w) := C.perform op s w
    let (as, s, w) := run C ops s w
    (a :: as, s, w)

@[simp] theorem run_nil (C : Cursor W σ α) (s : σ) (w : W) : C.run [] s w = ([], s, w) := rfl

theorem run_cons (C : Cursor W σ α) (op : Operation) (ops : List Operation) (s : σ) (w : W) :
    C.run (op :: ops) s w =
      ((C.perform op s w).1 :: (C.run ops (C.perform op s w).2.1 (C.perform op s w).2.2).1,
        (C.run ops (C.perform op s w).2.1 (C.perform op s w).2.2).2) := rfl

theorem run_concat (C : Cursor W σ α) (ops : List Operation) (op : Operation) (s : σ) (w : W) :
    (C.run (ops ++ [op]) s w).2 = (C.perform op (C.run ops s w).2.1 (C.run ops s w).2.2).2 := by
  induction ops generalizing s w with
  | nil => rfl
  | cons op' ops ih => exact ih _ _

/-! ## Readings -/

/-- The elements that valid states are still going to yield. -/
structure Reading (C : Cursor W σ α) where
  Valid : σ → Prop
  left : σ → List α
  next : ∀ {s} w, Valid s → (C.next s w).1 = (left s).head? ∧
    Valid (C.next s w).2.1 ∧ left (C.next s w).2.1 = (left s).tail
  hasNext : ∀ {s} w, Valid s → (C.hasNext s w).1 = (left s).head?.isSome ∧
    Valid (C.hasNext s w).2.1 ∧ left (C.hasNext s w).2.1 = left s
  remove : ∀ {s} w, Valid s → Valid (C.remove s w).2.1 ∧ left (C.remove s w).2.1 = left s
  length_le : ∀ {s}, Valid s → (left s).length ≤ C.bound s

namespace Reading

variable {C : Cursor W σ α} (R : Reading C) {s : σ}
include R

theorem next_eq (w : W) (hs : R.Valid s) : (C.next s w).1 = (R.left s).head? := (R.next w hs).1

theorem next_valid (w : W) (hs : R.Valid s) : R.Valid (C.next s w).2.1 := (R.next w hs).2.1

theorem next_left (w : W) (hs : R.Valid s) : R.left (C.next s w).2.1 = (R.left s).tail :=
  (R.next w hs).2.2

theorem hasNext_eq (w : W) (hs : R.Valid s) : (C.hasNext s w).1 = (R.left s).head?.isSome :=
  (R.hasNext w hs).1

theorem hasNext_valid (w : W) (hs : R.Valid s) : R.Valid (C.hasNext s w).2.1 :=
  (R.hasNext w hs).2.1

theorem hasNext_left (w : W) (hs : R.Valid s) : R.left (C.hasNext s w).2.1 = R.left s :=
  (R.hasNext w hs).2.2

theorem remove_valid (w : W) (hs : R.Valid s) : R.Valid (C.remove s w).2.1 := (R.remove w hs).1

theorem remove_left (w : W) (hs : R.Valid s) : R.left (C.remove s w).2.1 = R.left s :=
  (R.remove w hs).2

theorem perform_valid (op : Operation) (w : W) (hs : R.Valid s) :
    R.Valid (C.perform op s w).2.1 := by
  cases op with
  | next => exact R.next_valid w hs
  | hasNext => exact R.hasNext_valid w hs
  | remove => exact R.remove_valid w hs

theorem perform_left (op : Operation) (w : W) (hs : R.Valid s) :
    R.left (C.perform op s w).2.1 = (R.left s).drop ([op].count .next) := by
  cases op with
  | next => simpa [perform] using R.next_left w hs
  | hasNext => simpa [perform] using R.hasNext_left w hs
  | remove => simpa [perform] using R.remove_left w hs

theorem perform_yielded (op : Operation) (w : W) (hs : R.Valid s) :
    (C.perform op s w).1.yielded.toList = (R.left s).take ([op].count .next) := by
  cases op with
  | next =>
    have h := R.next_eq w hs
    cases hl : R.left s <;> simp_all [perform, Answer.yielded]
  | hasNext => simp [perform, Answer.yielded]
  | remove => simp [perform, Answer.yielded]

theorem run_valid (ops : List Operation) (w : W) (hs : R.Valid s) :
    R.Valid (C.run ops s w).2.1 := by
  induction ops generalizing s w with
  | nil => exact hs
  | cons op ops ih => exact ih _ (R.perform_valid op w hs)

theorem run_left (ops : List Operation) (w : W) (hs : R.Valid s) :
    R.left (C.run ops s w).2.1 = (R.left s).drop (ops.count .next) := by
  induction ops generalizing s w with
  | nil => simp
  | cons op ops ih =>
    have ht := R.perform_valid op w hs
    rw [run_cons, ih _ ht, R.perform_left op w hs, List.drop_drop, ← List.count_append,
      List.singleton_append]

/-- A run hands out the first elements, one for each call of `next` as long as there are any. -/
theorem run_yielded (ops : List Operation) (w : W) (hs : R.Valid s) :
    (C.run ops s w).1.filterMap Answer.yielded = (R.left s).take (ops.count .next) := by
  induction ops generalizing s w with
  | nil => simp
  | cons op ops ih =>
    have ht := R.perform_valid op w hs
    have hy := R.perform_yielded op w hs
    have hc : (op :: ops).count Operation.next = [op].count .next + ops.count .next := by
      rw [← List.count_append, List.singleton_append]
    rw [run_cons, hc, List.take_add, ← hy, ← R.perform_left op w hs,
      ← ih (C.perform op s w).2.2 ht]
    cases h : (C.perform op s w).1.yielded <;> simp [h]

end Reading

end ClassListing.Cursor
