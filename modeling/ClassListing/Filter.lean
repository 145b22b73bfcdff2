/-!
Named filters and their combinations. Every filter is an instance with a number of its own, so that
combining an instance with itself gives that instance back. Asking a combination asks its parts
from left to right and stops when the answer is settled.
-/

namespace ClassListing

inductive Connective where
  | and
  | or
  deriving DecidableEq, Repr

namespace Connective

def apply : Connective → Bool → Bool → Bool
  | and, a, b => a && b
  | or, a, b => a || b

def settledBy : Connective → Bool → Bool
  | and, a => !a
  | or, a => a

theorem apply_of_settledBy {op : Connective} {a : Bool} (h : op.settledBy a) (b : Bool) :
    op.apply a b = a := by
  cases op <;> cases a <;> simp_all [settledBy, apply]

theorem apply_of_not_settledBy {op : Connective} {a : Bool} (h : op.settledBy a = false)
    (b : Bool) : op.apply a b = b := by
  cases op <;> cases a <;> simp_all [settledBy, apply]

def separator : Connective → String
  | and => "-AND-"
  | or => "-OR-"

end Connective

structure Criterion (α : Type) where
  name : String
  accepts : α → Bool

namespace Criterion

variable {α : Type}

def everything : Criterion α := ⟨"ALL", fun _ => true⟩

def nothing : Criterion α := ⟨"NONE", fun _ => false⟩

end Criterion

inductive Filter (α : Type) where
  | leaf (id : Nat) (c : Criterion α)
  | node (id : Nat) (op : Connective) (left right : Filter α)

structure Question (α : Type) where
  leaf : Nat
  item : α

namespace Filter

variable {α : Type}

def id : Filter α → Nat
  | leaf id _ => id
  | node id _ _ _ => id

def name : Filter α → String
  | leaf _ c => c.name
  | node _ op a b => a.name ++ op.separator ++ b.name

/-- The answer for an item and the leaves that were asked, in order. -/
def consult : Filter α → α → Bool × List (Question α)
  | leaf id c, x => (c.accepts x, [⟨id, x⟩])
  | node _ op a b, x =>
    let (answer, asked) := a.consult x
    if op.settledBy answer then (answer, asked)
    else
      let (answer, more) := b.consult x
      (answer, asked ++ more)

def accept (f : Filter α) (x : α) : Bool := (f.consult x).1

@[simp] theorem accept_node (id : Nat) (op : Connective) (a b : Filter α) (x : α) :
    (node id op a b).accept x = op.apply (a.accept x) (b.accept x) := by
  by_cases h : op.settledBy (a.consult x).1
  · simp [accept, consult, h, Connective.apply_of_settledBy]
  · simp [accept, consult, h, Connective.apply_of_not_settledBy]

/-- Combines two instances. One instance with itself is that instance; otherwise a new instance
takes the next free number. -/
def combine (op : Connective) (a b : Filter α) (free : Nat) : Filter α × Nat :=
  if a.id = b.id then (a, free) else (node free op a b, free + 1)

end Filter

end ClassListing
