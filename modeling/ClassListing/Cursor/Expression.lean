import ClassListing.Cursor.Editable
import ClassListing.Cursor.Filtered
import ClassListing.Cursor.Peeking
import ClassListing.Cursor.Sequential
import ClassListing.Filter

/-!
Cursor expressions: leaves over lists, put one after another and filtered to any depth. A ledger keeps
what the operations do to the leaves, also to those that no cursor holds any more. The meaning of
an expression is the list of its elements.
-/

namespace ClassListing.CursorExpression

variable {α : Type}

/-! ## Plans and their elements -/

inductive Leaf (α : Type) where
  | editable (items : List α)
  | peeking (items : List α)

inductive Layer (α π : Type) where
  | leaf (l : Leaf α)
  | sequential (of : List π)
  | filtered (of : π) (keeps : Filter α)

/-- Expressions with combinations up to a depth. -/
def Plan (α : Type) : Nat → Type
  | 0 => Leaf α
  | n + 1 => Layer α (Plan α n)

def Leaf.elements : Leaf α → List α
  | editable items => items
  | peeking items => items

def Layer.elements {π : Type} (inner : π → List α) : Layer α π → List α
  | leaf l => l.elements
  | sequential of => of.flatMap inner
  | filtered of keeps => (inner of).filter keeps.accept

/-- The meaning of an expression. -/
def Plan.elements : (n : Nat) → Plan α n → List α
  | 0, l => Leaf.elements l
  | n + 1, p => Layer.elements (Plan.elements n) p

def Layer.bound {π : Type} (inner : π → Nat) : Layer α π → Nat
  | leaf l => l.elements.length + 1
  | sequential of => of.foldr (fun p n => inner p + n) 0
  | filtered of _ => inner of

/-! ## The ledger -/

structure Ledger (α : Type) where
  /-- The contents of every editable list, in the order they were made. -/
  lists : List (List α)
  /-- How many elements every forward sequence has given, in the order they were made. -/
  reads : List Nat
  pulled : Nat
  /-- How often a sequential cursor asked for another sub-cursor when there was none. -/
  ended : Nat
  asked : List (Question α)

def Ledger.empty : Ledger α := ⟨[], [], 0, 0, []⟩

def ask (keeps : Filter α) (x : α) (l : Ledger α) : Bool × Ledger α :=
  let (answer, asked) := keeps.consult x
  (answer, { l with asked := l.asked ++ asked })

/-! ## States and operations -/

inductive LeafState (α : Type) where
  | editable (slot : Nat) (c : Editable α)
  | peeking (slot : Nat) (size : Nat) (c : Peeking α)

namespace LeafState

def build (l : Leaf α) (w : Ledger α) : LeafState α × Ledger α :=
  match l with
  | .editable items =>
    (editable w.lists.length (.ofList items), { w with lists := w.lists ++ [items] })
  | .peeking items =>
    (peeking w.reads.length items.length (.ofList items), { w with reads := w.reads ++ [0] })

def enter (s : LeafState α) (w : Ledger α) : Ledger α :=
  match s with
  | editable slot c => { w with lists := w.lists.set slot c.items }
  | peeking slot size c => { w with reads := w.reads.set slot (size - c.unread.length) }

def next (s : LeafState α) (w : Ledger α) : Option α × LeafState α × Ledger α :=
  match s with
  | editable slot c => (c.next.1, editable slot c.next.2, enter (editable slot c.next.2) w)
  | peeking slot size c =>
    (c.next.1, peeking slot size c.next.2, enter (peeking slot size c.next.2) w)

def hasNext (s : LeafState α) (w : Ledger α) : Bool × LeafState α × Ledger α :=
  match s with
  | editable slot c => (c.hasNext, editable slot c, w)
  | peeking slot size c =>
    (c.hasNext.1, peeking slot size c.hasNext.2, enter (peeking slot size c.hasNext.2) w)

def remove (s : LeafState α) (w : Ledger α) :
    Except RemoveError Unit × LeafState α × Ledger α :=
  match s with
  | editable slot c => (c.remove.1, editable slot c.remove.2, enter (editable slot c.remove.2) w)
  | peeking slot size c => (.error .notSupported, peeking slot size c, w)

def bound (s : LeafState α) : Nat :=
  match s with
  | editable _ c => c.items.length - c.position
  | peeking _ _ c => c.unread.length + 1

def cursor (α : Type) : Cursor (Ledger α) (LeafState α) α := ⟨next, hasNext, remove, bound⟩

end LeafState

inductive LayerState (α π σ : Type) where
  | leaf (s : LeafState α)
  | sequential (s : Sequential π σ)
  | filtered (s : Filtered σ α) (keeps : Filter α)

namespace LayerState

variable {π σ : Type}

def counted (S : Supply (Ledger α) π σ) : Supply (Ledger α) π σ where
  build p w := S.build p { w with pulled := w.pulled + 1 }
  ended w := { w with ended := w.ended + 1 }
  bound := S.bound

def build (C : Cursor (Ledger α) σ α) (S : Supply (Ledger α) π σ) (p : Layer α π)
    (w : Ledger α) : LayerState α π σ × Ledger α :=
  match p with
  | .leaf l =>
    let (s, w) := LeafState.build l w
    (leaf s, w)
  | .sequential of =>
    let (s, w) := Sequential.start (counted S) of w
    (sequential s, w)
  | .filtered of keeps =>
    let (inner, w) := S.build of w
    let (s, w) := Filtered.start C (ask keeps) inner w
    (filtered s keeps, w)

def next (C : Cursor (Ledger α) σ α) (S : Supply (Ledger α) π σ) (s : LayerState α π σ)
    (w : Ledger α) : Option α × LayerState α π σ × Ledger α :=
  match s with
  | leaf s =>
    let (x, s, w) := s.next w
    (x, leaf s, w)
  | sequential s =>
    let (x, s, w) := s.next C (counted S) w
    (x, sequential s, w)
  | filtered s keeps =>
    let (x, s, w) := s.next C (ask keeps) w
    (x, filtered s keeps, w)

def hasNext (C : Cursor (Ledger α) σ α) (S : Supply (Ledger α) π σ) (s : LayerState α π σ)
    (w : Ledger α) : Bool × LayerState α π σ × Ledger α :=
  match s with
  | leaf s =>
    let (b, s, w) := s.hasNext w
    (b, leaf s, w)
  | sequential s =>
    let (b, s, w) := s.advance C (counted S) w
    (b, sequential s, w)
  | filtered s keeps => (s.lookahead.isSome, filtered s keeps, w)

def remove (C : Cursor (Ledger α) σ α) (s : LayerState α π σ) (w : Ledger α) :
    Except RemoveError Unit × LayerState α π σ × Ledger α :=
  match s with
  | leaf s =>
    let (r, s, w) := s.remove w
    (r, leaf s, w)
  | sequential s =>
    let (r, s, w) := s.remove C w
    (r, sequential s, w)
  | filtered s keeps => (.error .notSupported, filtered s keeps, w)

def bound (C : Cursor (Ledger α) σ α) (S : Supply (Ledger α) π σ) :
    LayerState α π σ → Nat
  | leaf s => s.bound
  | sequential s => (Sequential.cursor C (counted S)).bound s
  | filtered s keeps => (Filtered.cursor C (ask keeps)).bound s

def cursor (C : Cursor (Ledger α) σ α) (S : Supply (Ledger α) π σ) :
    Cursor (Ledger α) (LayerState α π σ) α :=
  ⟨next C S, hasNext C S, remove C, bound C S⟩

end LayerState

def State (α : Type) : Nat → Type
  | 0 => LeafState α
  | n + 1 => LayerState α (Plan α n) (State α n)

def operations (α : Type) : (n : Nat) →
    Cursor (Ledger α) (State α n) α × Supply (Ledger α) (Plan α n) (State α n)
  | 0 => (LeafState.cursor α, ⟨LeafState.build, fun w => w, fun l => l.elements.length + 1⟩)
  | n + 1 =>
    let (C, S) := operations α n
    (LayerState.cursor C S, ⟨LayerState.build C S, fun w => w, Layer.bound S.bound⟩)

def start {n : Nat} (p : Plan α n) (w : Ledger α) : State α n × Ledger α :=
  (operations α n).2.build p w

def cursor (α : Type) (n : Nat) : Cursor (Ledger α) (State α n) α := (operations α n).1

def sizeHint : {n : Nat} → State α n → Nat × Option Nat
  | 0, .editable _ c => (c.sizeHint.1, some c.sizeHint.2)
  | 0, .peeking .. => (0, none)
  | _ + 1, .leaf (.editable _ c) => (c.sizeHint.1, some c.sizeHint.2)
  | _ + 1, _ => (0, none)

def drain {n : Nat} : Nat → State α n → Ledger α → List α × State α n × Ledger α
  | 0, s, w => ([], s, w)
  | bound + 1, s, w =>
    match (cursor α n).next s w with
    | (none, s, w) => ([], s, w)
    | (some x, s, w) =>
      let (xs, s, w) := drain bound s w
      (x :: xs, s, w)

end ClassListing.CursorExpression
