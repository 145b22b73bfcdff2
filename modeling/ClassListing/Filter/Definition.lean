import ClassListing.Filter

/-!
Definitions of filters that refer to each other by name. What they refer to is the instance defined
before, so one instance can stand in many places.
-/

namespace ClassListing

inductive FilterTerm (α : Type) where
  /-- A new leaf instance each time. -/
  | new (c : Criterion α)
  | given (f : Filter α)
  | named (definition : String)
  | combined (op : Connective) (left right : FilterTerm α)

structure FilterScope (α : Type) where
  defined : List (String × Filter α)
  free : Nat

namespace FilterScope

variable {α : Type}

/-- The instances below this number are shared by everyone, see `MemberFilter.filter`. -/
def firstFree : Nat := 8

def initial : FilterScope α := ⟨[], firstFree⟩

def find? (s : FilterScope α) (definition : String) : Option (Filter α) :=
  s.defined.lookup definition

def build (s : FilterScope α) : FilterTerm α → Option (Filter α × FilterScope α)
  | .new c => some (.leaf s.free c, { s with free := s.free + 1 })
  | .given f => some (f, s)
  | .named definition => (s.find? definition).map fun f => (f, s)
  | .combined op a b =>
    match s.build a with
    | none => none
    | some (a, s) =>
      match s.build b with
      | none => none
      | some (b, s) =>
        let (f, free) := Filter.combine op a b s.free
        some (f, { s with free })

def define (s : FilterScope α) (definition : String) (t : FilterTerm α) :
    Option (Filter α × FilterScope α) :=
  (s.build t).map fun (f, s) => (f, { s with defined := (definition, f) :: s.defined })

def defineAll (s : FilterScope α) : List (String × FilterTerm α) →
    Option (List (Filter α) × FilterScope α)
  | [] => some ([], s)
  | (definition, t) :: ts =>
    match s.define definition t with
    | none => none
    | some (f, s) => (s.defineAll ts).map fun (fs, s) => (f :: fs, s)

end FilterScope

end ClassListing
