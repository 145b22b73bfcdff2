import ClassListing.Cursor

/-!
The elements of a cursor that a question lets through. The next one is looked up at the start and after
every yield, so telling whether there is more reads nothing. Nothing can be removed: the inner
cursor is ahead of the element yielded last.
-/

namespace ClassListing

structure Filtered (σ α : Type) where
  inner : σ
  lookahead : Option α

namespace Filtered

variable {W σ α : Type}

def find (C : Cursor W σ α) (ask : α → W → Bool × W) : Nat → σ → W → Option α × σ × W
  | 0, s, w => (none, s, w)
  | bound + 1, s, w =>
    match C.next s w with
    | (none, s, w) => (none, s, w)
    | (some x, s, w) =>
      let (yes, w) := ask x w
      if yes then (some x, s, w) else find C ask bound s w

/-- Reads up to the next element that is let through; the last turn finds the end. -/
def refill (C : Cursor W σ α) (ask : α → W → Bool × W) (s : σ) (w : W) : Filtered σ α × W :=
  let (x, s, w) := find C ask (C.bound s + 1) s w
  (⟨s, x⟩, w)

def start (C : Cursor W σ α) (ask : α → W → Bool × W) (inner : σ) (w : W) : Filtered σ α × W :=
  refill C ask inner w

def next (C : Cursor W σ α) (ask : α → W → Bool × W) (f : Filtered σ α) (w : W) :
    Option α × Filtered σ α × W :=
  match f.lookahead with
  | none => (none, f, w)
  | some x =>
    let (f, w) := refill C ask f.inner w
    (some x, f, w)

def cursor (C : Cursor W σ α) (ask : α → W → Bool × W) : Cursor W (Filtered σ α) α where
  next := next C ask
  hasNext f w := (f.lookahead.isSome, f, w)
  remove f w := (.error .notSupported, f, w)
  bound f := f.lookahead.toList.length + C.bound f.inner

end Filtered

end ClassListing
