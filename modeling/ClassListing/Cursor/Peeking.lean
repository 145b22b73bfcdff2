import ClassListing.Cursor

/-!
A cursor over a sequence that can only be read forward. To tell whether there is more it reads one
element ahead and keeps it. It cannot remove anything.
-/

namespace ClassListing

structure Peeking (α : Type) where
  /-- The element read ahead, or the end if that was found instead. -/
  peeked : Option (Option α)
  unread : List α
  deriving DecidableEq, Repr

namespace Peeking

variable {α : Type}

def ofList (items : List α) : Peeking α := ⟨none, items⟩

def remaining (c : Peeking α) : List α :=
  match c.peeked with
  | none => c.unread
  | some none => []
  | some (some x) => x :: c.unread

def next (c : Peeking α) : Option α × Peeking α :=
  match c.peeked with
  | some x => (x, ⟨none, c.unread⟩)
  | none => (c.unread.head?, ⟨none, c.unread.tail⟩)

def hasNext (c : Peeking α) : Bool × Peeking α :=
  match c.peeked with
  | some x => (x.isSome, c)
  | none => (c.unread.head?.isSome, ⟨some c.unread.head?, c.unread.tail⟩)

def cursor (W α : Type) : Cursor W (Peeking α) α where
  next c w := (c.next.1, c.next.2, w)
  hasNext c w := (c.hasNext.1, c.hasNext.2, w)
  remove c w := (.error .notSupported, c, w)
  bound c := c.unread.length + 1

/-- The end is kept only when there is nothing left to read. -/
def Valid (c : Peeking α) : Prop := c.peeked = some none → c.unread = []

theorem next_remaining {c : Peeking α} (h : c.Valid) :
    c.next.1 = c.remaining.head? ∧ c.next.2.remaining = c.remaining.tail := by
  obtain ⟨peeked, unread⟩ := c
  rcases peeked with _ | _ | x
  · simp [next, remaining]
  · simp [next, remaining, h rfl]
  · simp [next, remaining]

theorem hasNext_remaining (c : Peeking α) :
    c.hasNext.1 = c.remaining.head?.isSome ∧ c.hasNext.2.remaining = c.remaining := by
  obtain ⟨peeked, unread⟩ := c
  rcases peeked with _ | _ | x
  · cases unread <;> simp [hasNext, remaining]
  · simp [hasNext, remaining]
  · simp [hasNext, remaining]

theorem valid_ofList (items : List α) : (ofList items).Valid := by simp [Valid, ofList]

theorem Valid.next {c : Peeking α} : c.next.2.Valid := by
  obtain ⟨peeked, unread⟩ := c
  cases peeked <;> simp [Peeking.next, Valid]

theorem Valid.hasNext {c : Peeking α} (h : c.Valid) : c.hasNext.2.Valid := by
  obtain ⟨peeked, unread⟩ := c
  cases peeked with
  | none => cases unread <;> simp [Peeking.hasNext, Valid]
  | some x => exact h

theorem length_remaining_le (c : Peeking α) : c.remaining.length ≤ c.unread.length + 1 := by
  obtain ⟨peeked, unread⟩ := c
  rcases peeked with _ | _ | x <;> simp [remaining]

end Peeking

end ClassListing
