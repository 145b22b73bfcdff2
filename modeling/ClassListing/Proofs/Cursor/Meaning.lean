import ClassListing.Cursor.Expression
import ClassListing.Proofs.Cursor.Combination

/-!
# The meaning of cursor expressions

Every expression of any depth has a reading, and an expression that has just been started is going to
yield its elements. So every element is visited once and in order, however the calls are mixed.
-/

namespace ClassListing.CursorExpression

set_option autoImplicit false

variable {α : Type}

/-! ## Leaves -/

namespace LeafState

def Valid : LeafState α → Prop
  | editable _ c => c.Valid
  | peeking _ _ c => c.Valid

def left : LeafState α → List α
  | editable _ c => c.remaining
  | peeking _ _ c => c.remaining

def reading (α : Type) : (LeafState.cursor α).Reading where
  Valid := Valid
  left := left
  next := by
    intro s w h
    cases s with
    | editable slot c =>
      exact ⟨(Editable.next_remaining c).1, Editable.Valid.next h, (Editable.next_remaining c).2⟩
    | peeking slot size c => exact (Peeking.reading (Ledger α) α).next w h
  hasNext := by
    intro s w h
    cases s with
    | editable slot c => exact ⟨Editable.hasNext_remaining c, h, rfl⟩
    | peeking slot size c => exact (Peeking.reading (Ledger α) α).hasNext w h
  remove := by
    intro s w h
    cases s with
    | editable slot c => exact ⟨Editable.Valid.remove h, Editable.remove_remaining h⟩
    | peeking slot size c => exact ⟨h, rfl⟩
  length_le := by
    intro s h
    cases s with
    | editable slot c => simp [left, cursor, bound, Editable.remaining]
    | peeking slot size c => exact Peeking.length_remaining_le c

theorem valid_build (l : Leaf α) (w : Ledger α) : (build l w).1.Valid := by
  cases l with
  | editable items => exact Editable.valid_ofList items
  | peeking items => exact Peeking.valid_ofList items

theorem left_build (l : Leaf α) (w : Ledger α) : (build l w).1.left = l.elements := by
  cases l <;> rfl

end LeafState

/-! ## Layers -/

namespace LayerState

variable {π σ : Type} {C : Cursor (Ledger α) σ α} {S : Supply (Ledger α) π σ} {R : C.Reading}
  {elements : π → List α}

theorem counted_makes (hS : S.Makes R elements) : (counted S).Makes R elements :=
  ⟨fun p _ => hS.valid p _, fun p _ => hS.left p _, hS.length_le⟩

theorem ask_eq (keeps : Filter α) (x : α) (w : Ledger α) : (ask keeps x w).1 = keeps.accept x := rfl

def Valid (R : C.Reading) : LayerState α π σ → Prop
  | leaf s => s.Valid
  | sequential s => s.Valid R
  | filtered s _ => s.Valid R

def left (R : C.Reading) (elements : π → List α) : LayerState α π σ → List α
  | leaf s => s.left
  | sequential s => s.left R elements
  | filtered s keeps => s.left R keeps.accept

def reading (hS : S.Makes R elements) : (LayerState.cursor C S).Reading where
  Valid := Valid R
  left := left R elements
  next := by
    intro s w h
    cases s with
    | leaf s => exact (LeafState.reading α).next w h
    | sequential s => exact (Sequential.reading (counted_makes hS)).next w h
    | filtered s keeps => exact (Filtered.reading R (ask_eq keeps)).next w h
  hasNext := by
    intro s w h
    cases s with
    | leaf s => exact (LeafState.reading α).hasNext w h
    | sequential s => exact (Sequential.reading (counted_makes hS)).hasNext w h
    | filtered s keeps => exact (Filtered.reading R (ask_eq keeps)).hasNext w h
  remove := by
    intro s w h
    cases s with
    | leaf s => exact (LeafState.reading α).remove w h
    | sequential s => exact (Sequential.reading (counted_makes hS)).remove w h
    | filtered s keeps => exact (Filtered.reading R (ask_eq keeps)).remove w h
  length_le := by
    intro s h
    cases s with
    | leaf s => exact (LeafState.reading α).length_le h
    | sequential s => exact (Sequential.reading (counted_makes hS)).length_le h
    | filtered s keeps => exact (Filtered.reading R (ask_eq keeps)).length_le h

theorem valid_build (hS : S.Makes R elements) (p : Layer α π) (w : Ledger α) :
    Valid R (build C S p w).1 := by
  cases p with
  | leaf l => exact LeafState.valid_build l w
  | sequential of => exact Sequential.valid_start (counted_makes hS) of w
  | filtered of keeps => exact (Filtered.refill_reading (ask_eq keeps) _ (hS.valid of w)).1

theorem left_build (hS : S.Makes R elements) (p : Layer α π) (w : Ledger α) :
    left R elements (build C S p w).1 = p.elements elements := by
  cases p with
  | leaf l => exact LeafState.left_build l w
  | sequential of => exact Sequential.left_start (counted_makes hS) of w
  | filtered of keeps =>
    have h := (Filtered.refill_reading (ask_eq keeps) (S.build of w).2 (hS.valid of w)).2
    rw [hS.left] at h
    exact h

end LayerState

/-! ## Expressions -/

def supply (α : Type) (n : Nat) : Supply (Ledger α) (Plan α n) (State α n) := (operations α n).2

/-- The reading of expressions up to a depth, by recursion on the depth. -/
def readingMakes (α : Type) :
    (n : Nat) → { R : (cursor α n).Reading // (supply α n).Makes R (Plan.elements n) }
  | 0 => ⟨LeafState.reading α, LeafState.valid_build, LeafState.left_build,
      fun _ => Nat.le_succ _⟩
  | n + 1 =>
    let ⟨_, hS⟩ := readingMakes α n
    ⟨LayerState.reading hS, LayerState.valid_build hS, LayerState.left_build hS, fun p =>
      match p with
      | .leaf _ => Nat.le_succ _
      | .sequential of => hS.length_flatMap_le of
      | .filtered of keeps =>
        Nat.le_trans (List.length_filter_le keeps.accept _) (hS.length_le of)⟩

def reading (α : Type) (n : Nat) : (cursor α n).Reading := (readingMakes α n).1

variable {n : Nat}

theorem valid_start (p : Plan α n) (w : Ledger α) : (reading α n).Valid (start p w).1 :=
  (readingMakes α n).2.valid p w

theorem left_start (p : Plan α n) (w : Ledger α) :
    (reading α n).left (start p w).1 = Plan.elements n p :=
  (readingMakes α n).2.left p w

/-- After any calls on an expression the next element is the one of its meaning whose turn it is, a
test for more tells whether there is one, and the elements handed out so far are the first ones. -/
theorem run_visits_elements (p : Plan α n) (w : Ledger α) (ops : List Cursor.Operation) :
    let r := (cursor α n).run ops (start p w).1 (start p w).2
    ((cursor α n).next r.2.1 r.2.2).1 = (Plan.elements n p)[ops.count .next]? ∧
      (((cursor α n).hasNext r.2.1 r.2.2).1 = true ↔
        ((cursor α n).next r.2.1 r.2.2).1.isSome) ∧
      r.1.filterMap Cursor.Answer.yielded = (Plan.elements n p).take (ops.count .next) := by
  intro r
  have hv := (reading α n).run_valid ops (start p w).2 (valid_start p w)
  have hl := (reading α n).run_left ops (start p w).2 (valid_start p w)
  have hy := (reading α n).run_yielded ops (start p w).2 (valid_start p w)
  rw [left_start] at hl hy
  have hn := (reading α n).next_eq r.2.2 hv
  have hm := (reading α n).hasNext_eq r.2.2 hv
  refine ⟨?_, by rw [hm, hn], hy⟩
  rw [hn, hl, List.head?_drop]

end ClassListing.CursorExpression
