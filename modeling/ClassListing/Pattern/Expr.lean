import ClassListing.Pattern.CharSet

/-!
What patterns mean, and how large they are.
-/

namespace ClassListing.Pattern

inductive Look where
  | textStart
  | textEnd
  | lineStart
  | lineEnd
  /-- Carriage returns end lines too, alone or before a line feed. -/
  | returnLineStart
  | returnLineEnd
  | wordBoundary
  | notWordBoundary
  | wordStart
  | wordEnd
  | wordStartHalf
  | wordEndHalf
  | anyScript
  deriving DecidableEq, Repr

inductive Expr where
  | empty
  | chars (s : CharSet)
  | look (l : Look)
  | seq (a b : Expr)
  | alt (a b : Expr)
  | rep (e : Expr) (least : Nat) (most : Option Nat)
  | captured (e : Expr)
  deriving Repr

namespace Expr

def isWidthless : Expr → Bool
  | empty => true
  | chars _ => false
  | look _ => true
  | seq a b => a.isWidthless && b.isWidthless
  | alt a b => a.isWidthless && b.isWidthless
  | rep e _ most => most = some 0 || e.isWidthless
  | captured e => e.isWidthless

def isNullable : Expr → Bool
  | empty => true
  | chars _ => false
  | look _ => true
  | seq a b => a.isNullable && b.isNullable
  | alt a b => a.isNullable || b.isNullable
  | rep e least _ => least = 0 || e.isNullable
  | captured e => e.isNullable

/-- A repetition. The empty text is not repeated, and nothing is left of what is repeated not at all. -/
def repeated (e : Expr) (least : Nat) (most : Option Nat) : Expr :=
  let (least, most) :=
    if e.isWidthless then (min least 1, some ((most.map (min 1)).getD 1)) else (least, most)
  if least = 0 && most = some 0 then empty
  else if least = 1 && most = some 1 then e
  else rep e least most

def asksAnyScript : Expr → Bool
  | empty => false
  | chars _ => false
  | look l => l = .anyScript
  | seq a b => a.asksAnyScript || b.asksAnyScript
  | alt a b => a.asksAnyScript || b.asksAnyScript
  | rep e _ _ => e.asksAnyScript
  | captured e => e.asksAnyScript

/-! ## Size -/

def stateSize : Nat := 32

def waySize : Nat := 8

/-- The size of a machine for one character out of a set. Beyond ASCII it reads several bytes. -/
def charSize (s : CharSet) : Nat :=
  match s.only? with
  | some c => stateSize * c.utf8Size
  | none =>
    if s.isAscii then
      if s.length ≤ 1 then 2 * stateSize else 2 * stateSize + waySize * s.length
    else 14 * stateSize + 4 * waySize * s.length

/-- The size of a machine for a pattern. Repetitions are written out. -/
def size : Expr → Nat
  | empty => stateSize
  | chars s => charSize s
  | look _ => stateSize
  | seq a b => a.size + b.size
  | alt a b => a.size + b.size + waySize
  | rep e least none =>
    if least = 0 then e.size + stateSize + waySize + (if e.isNullable then 2 * stateSize + waySize else 0)
    else e.size * least + stateSize + waySize
  | rep e least (some most) =>
    e.size * most + (if least < most then (most - least) * (stateSize + waySize) + stateSize else 0)
  | captured e => e.size + 2 * stateSize

end Expr

end ClassListing.Pattern
