import ClassListing.Cursor

/-!
A cursor over a list of its own that can remove elements from it. The position is never past the end,
and an element can be removed only if one stands before the position.
-/

namespace ClassListing

structure Editable (α : Type) where
  items : List α
  position : Nat
  /-- Whether an element has been yielded since the last removal. -/
  removable : Bool
  deriving DecidableEq, Repr

namespace Editable

variable {α : Type}

def ofList (items : List α) : Editable α := ⟨items, 0, false⟩

def remaining (c : Editable α) : List α := c.items.drop c.position

def next (c : Editable α) : Option α × Editable α :=
  match c.items[c.position]? with
  | none => (none, c)
  | some x => (some x, { c with position := c.position + 1, removable := true })

def hasNext (c : Editable α) : Bool := c.position < c.items.length

def remove (c : Editable α) : Except RemoveError Unit × Editable α :=
  if c.removable then
    (.ok (), ⟨c.items.eraseIdx (c.position - 1), c.position - 1, false⟩)
  else (.error .nothingToRemove, c)

def sizeHint (c : Editable α) : Nat × Nat :=
  let left := c.items.length - c.position
  (left, left)

structure Valid (c : Editable α) : Prop where
  position_le : c.position ≤ c.items.length
  position_pos : c.removable → 0 < c.position

theorem valid_ofList (items : List α) : (ofList items).Valid := ⟨Nat.zero_le _, by simp [ofList]⟩

theorem next_of_lt {c : Editable α} (h : c.position < c.items.length) :
    c.next = (some c.items[c.position],
      { c with position := c.position + 1, removable := true }) := by
  simp [next, h]

theorem next_of_le {c : Editable α} (h : c.items.length ≤ c.position) : c.next = (none, c) := by
  simp [next, h]

theorem next_remaining (c : Editable α) :
    c.next.1 = c.remaining.head? ∧ c.next.2.remaining = c.remaining.tail := by
  by_cases h : c.position < c.items.length
  · rw [next_of_lt h]
    simp [remaining, List.head?_drop, List.tail_drop, h]
  · have h' : c.items.length ≤ c.position := Nat.le_of_not_lt h
    rw [next_of_le h']
    simp [remaining, List.drop_eq_nil_of_le h']

theorem hasNext_remaining (c : Editable α) : c.hasNext = c.remaining.head?.isSome := by
  by_cases h : c.position < c.items.length
  · simp [hasNext, remaining, List.head?_drop, h]
  · simp [hasNext, remaining, List.head?_drop, h]

theorem Valid.next {c : Editable α} (hc : c.Valid) : c.next.2.Valid := by
  by_cases h : c.position < c.items.length
  · rw [next_of_lt h]
    exact ⟨h, fun _ => Nat.succ_pos _⟩
  · rw [next_of_le (Nat.le_of_not_lt h)]
    exact hc

theorem next_items (c : Editable α) : c.next.2.items = c.items := by
  by_cases h : c.position < c.items.length
  · rw [next_of_lt h]
  · rw [next_of_le (Nat.le_of_not_lt h)]

theorem Valid.remove {c : Editable α} (hc : c.Valid) : c.remove.2.Valid := by
  unfold Editable.remove
  split
  · rename_i hr
    have hp := hc.position_pos hr
    have hl := hc.position_le
    refine ⟨?_, by simp⟩
    simp only [List.length_eraseIdx]
    split <;> omega
  · exact hc

/-- Removing takes away the last of the elements yielded and leaves those still to come. -/
theorem remove_remaining {c : Editable α} (hc : c.Valid) :
    c.remove.2.remaining = c.remaining := by
  unfold remove
  split
  · rename_i hr
    have hp := hc.position_pos hr
    have hl := hc.position_le
    have ht : (c.items.take (c.position - 1)).length = c.position - 1 :=
      List.length_take_of_le (by omega)
    simp only [remaining, List.eraseIdx_eq_take_drop_succ]
    rw [List.drop_append, ht, List.drop_of_length_le (by omega), Nat.sub_add_cancel hp]
    simp
  · rfl

end Editable

end ClassListing
