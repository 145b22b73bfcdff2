/-!
Cursors: elements one after another, a test for more that consumes nothing, and perhaps removal of the
element yielded last. A cursor is given by its operations on a type of states. They may also read
and change a world that several cursors share.
-/

namespace ClassListing

inductive RemoveError where
  /-- The cursor cannot tell where the last element came from. -/
  | notSupported
  /-- Nothing has been yielded since the last removal. -/
  | nothingToRemove
  deriving DecidableEq, Repr

/-- The operations of a cursor with states `σ` over elements of `α` in a world `W`. -/
structure Cursor (W σ α : Type) where
  next : σ → W → Option α × σ × W
  hasNext : σ → W → Bool × σ × W
  remove : σ → W → Except RemoveError Unit × σ × W
  /-- At least as many as there are elements left. -/
  bound : σ → Nat

end ClassListing
