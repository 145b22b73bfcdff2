import ClassListing.Pattern.Expr

/-!
Searching a text for a pattern. A set of places is a number whose bits are the places, counted from the
start of the text, so a pattern takes all places of a set one step at once.
-/

namespace ClassListing.Pattern

def bitsOf : List Bool → Nat
  | [] => 0
  | b :: bs => b.toNat + 2 * bitsOf bs

def surroundings (before : Option Char) : List Char → List (Option Char × Option Char)
  | [] => [(before, none)]
  | c :: cs => (before, some c) :: surroundings (some c) cs

def inWord : Option Char → Bool
  | none => false
  | some c => c.isAlphanum || c = '_'

def Look.holds (l : Look) (before behind : Option Char) : Bool :=
  match l with
  | .textStart => before = none
  | .textEnd => behind = none
  | .lineStart => before = none || before = some '\n'
  | .lineEnd => behind = none || behind = some '\n'
  | .returnLineStart =>
    before = none || before = some '\n' || (before = some '\r' && behind ≠ some '\n')
  | .returnLineEnd =>
    behind = none || behind = some '\r' || (behind = some '\n' && before ≠ some '\r')
  | .wordBoundary => inWord before ≠ inWord behind
  | .notWordBoundary => inWord before = inWord behind
  | .wordStart => !inWord before && inWord behind
  | .wordEnd => inWord before && !inWord behind
  | .wordStartHalf => !inWord before
  | .wordEndHalf => !inWord behind
  | .anyScript => false

/-- A pattern on one text: steps from places to places. -/
inductive Steps where
  | stay (places : Nat)
  | pass (places : Nat)
  | seq (a b : Steps)
  | alt (a b : Steps)
  | rep (s : Steps) (least : Nat) (most : Option Nat)

def Expr.steps (text : List Char) : Expr → Steps
  | empty => .stay (bitsOf ((surroundings none text).map fun _ => true))
  | chars s => .pass (bitsOf (text.map s.contains))
  | look l => .stay (bitsOf ((surroundings none text).map fun (a, b) => l.holds a b))
  | seq a b => .seq (a.steps text) (b.steps text)
  | alt a b => .alt (a.steps text) (b.steps text)
  | rep e least most => .rep (e.steps text) least most
  | captured e => e.steps text

/-- A number of turns, or fewer if a turn changes nothing. -/
def turns (f : Nat → Nat) : Nat → Nat → Nat
  | 0, places => places
  | count + 1, places =>
    let next := f places
    if next = places then places else turns f count next

/-- Where a pattern can end if it begins at one of the given places. Every turn of a repetition stays or
goes forward, so more turns than there are places add nothing. -/
def Steps.run (bound : Nat) : Steps → Nat → Nat
  | stay places, start => start &&& places
  | pass places, start => (start &&& places) <<< 1
  | seq a b, start => b.run bound (a.run bound start)
  | alt a b, start => a.run bound start ||| b.run bound start
  | rep s least most, start =>
    let needed := turns (s.run bound) (min least bound) start
    let further := (most.map fun m => min (m - least) bound).getD bound
    turns (fun places => places ||| s.run bound places) further needed

def Expr.occursIn (e : Expr) (text : List Char) : Bool :=
  let bound := text.length + 1
  (e.steps text).run bound ((1 <<< bound) - 1) ≠ 0

end ClassListing.Pattern
