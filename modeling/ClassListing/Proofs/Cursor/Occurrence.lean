import ClassListing.Cursor.Expression
import ClassListing.Proofs.Cursor.Image

/-!
# Occurrences in cursor expressions

Every element of an expression is labelled with where it stands: the way from the root to its leaf and
its index there. Labelled expressions work like the ones they come from, and no two elements of
editable lists stand at the same spot.
-/

namespace ClassListing

set_option autoImplicit false

namespace Filter

variable {α β : Type}

def comap (f : β → α) : Filter α → Filter β
  | leaf id c => leaf id ⟨c.name, fun x => c.accepts (f x)⟩
  | node id op a b => node id op (a.comap f) (b.comap f)

@[simp] theorem accept_comap (f : β → α) (keeps : Filter α) (x : β) :
    (keeps.comap f).accept x = keeps.accept (f x) := by
  induction keeps with
  | leaf id c => rfl
  | node id op a b iha ihb => simp [comap, iha, ihb]

end Filter

namespace CursorExpression

variable {α : Type}

/-! ## Labels -/

inductive Turn where
  | child (i : Nat)
  | filter
  deriving DecidableEq, Repr

/-- The way to a leaf and an index in it. -/
structure Spot where
  way : List Turn
  index : Nat
  deriving DecidableEq, Repr

structure Occurrence (α : Type) where
  element : α
  spot : Spot
  editable : Bool
  deriving DecidableEq, Repr

/-- The way leads through sequences only, to an editable leaf. -/
def Occurrence.removable (o : Occurrence α) : Bool := o.editable && !o.spot.way.contains .filter

def Leaf.label (way : List Turn) : Leaf α → Leaf (Occurrence α)
  | editable items => .editable (items.mapIdx fun i x => ⟨x, ⟨way, i⟩, true⟩)
  | peeking items => .peeking (items.mapIdx fun i x => ⟨x, ⟨way, i⟩, false⟩)

def Layer.label {π ρ : Type} (inner : List Turn → π → ρ) (way : List Turn) :
    Layer α π → Layer (Occurrence α) ρ
  | leaf l => .leaf (l.label way)
  | sequential of => .sequential (of.mapIdx fun i p => inner (way ++ [.child i]) p)
  | filtered of keeps => .filtered (inner (way ++ [.filter]) of) (keeps.comap Occurrence.element)

def Plan.label : (n : Nat) → List Turn → Plan α n → Plan (Occurrence α) n
  | 0, way, l => Leaf.label way l
  | n + 1, way, p => Layer.label (Plan.label n) way p

def Plan.occurrences (n : Nat) (p : Plan α n) : List (Occurrence α) :=
  Plan.elements n (Plan.label n [] p)

/-! ## Editable lists -/

def Leaf.lists : Leaf α → List (List α)
  | editable items => [items]
  | peeking _ => []

def Layer.lists {π : Type} (inner : π → List (List α)) : Layer α π → List (List α)
  | leaf l => l.lists
  | sequential of => of.flatMap inner
  | filtered of _ => inner of

def Plan.lists : (n : Nat) → Plan α n → List (List α)
  | 0, l => Leaf.lists l
  | n + 1, p => Layer.lists (Plan.lists n) p

def Plan.occurrenceLists (n : Nat) (p : Plan α n) : List (List (Occurrence α)) :=
  Plan.lists n (Plan.label n [] p)

/-! ## Where labelled elements stand -/

theorem Leaf.way_of_mem_label (way : List Turn) (l : Leaf α) {o : Occurrence α}
    (ho : o ∈ (l.label way).elements) : o.spot.way = way := by
  cases l <;>
  · obtain ⟨i, hi, rfl⟩ := List.mem_mapIdx.mp ho
    rfl

/-- The way to a leaf begins with the way to the expression. -/
theorem Plan.way_of_mem_label (n : Nat) (way : List Turn) (p : Plan α n) {o : Occurrence α}
    (ho : o ∈ Plan.elements n (Plan.label n way p)) : way <+: o.spot.way := by
  induction n generalizing way with
  | zero => exact (Leaf.way_of_mem_label way p ho) ▸ List.prefix_refl _
  | succ n ih =>
    cases p with
    | leaf l => exact (Leaf.way_of_mem_label way l ho) ▸ List.prefix_refl _
    | sequential of =>
      obtain ⟨q, hq, ho⟩ := List.mem_flatMap.mp ho
      obtain ⟨i, hi, rfl⟩ := List.mem_mapIdx.mp hq
      exact (List.prefix_append way _).trans (ih _ _ ho)
    | filtered of keeps =>
      exact (List.prefix_append way _).trans (ih _ _ (List.mem_of_mem_filter ho))

theorem Leaf.way_of_mem_lists (way : List Turn) (l : Leaf α) {o : Occurrence α}
    (ho : o ∈ (l.label way).lists.flatten) : o.spot.way = way := by
  apply Leaf.way_of_mem_label way l
  cases l with
  | editable items => simpa [Leaf.lists, Leaf.label, Leaf.elements] using ho
  | peeking items => simp [Leaf.lists, Leaf.label] at ho

theorem Plan.way_of_mem_lists (n : Nat) (way : List Turn) (p : Plan α n) {o : Occurrence α}
    (ho : o ∈ (Plan.lists n (Plan.label n way p)).flatten) : way <+: o.spot.way := by
  induction n generalizing way with
  | zero => exact (Leaf.way_of_mem_lists way p ho) ▸ List.prefix_refl _
  | succ n ih =>
    cases p with
    | leaf l => exact (Leaf.way_of_mem_lists way l ho) ▸ List.prefix_refl _
    | sequential of =>
      obtain ⟨items, hitems, ho⟩ := List.mem_flatten.mp ho
      obtain ⟨q, hq, hmem⟩ := List.mem_flatMap.mp hitems
      obtain ⟨i, hi, rfl⟩ := List.mem_mapIdx.mp hq
      exact (List.prefix_append way _).trans (ih _ _ (List.mem_flatten.mpr ⟨items, hmem, ho⟩))
    | filtered of keeps => exact (List.prefix_append way _).trans (ih _ _ ho)

/-! ## No spot twice -/

def Distinct (os : List (Occurrence α)) : Prop := os.Pairwise fun o o' => o.spot ≠ o'.spot

theorem Leaf.distinct_lists (way : List Turn) (l : Leaf α) :
    Distinct (l.label way).lists.flatten := by
  cases l with
  | editable items =>
    simp only [Distinct, Leaf.label, Leaf.lists, List.flatten_singleton]
    rw [List.pairwise_iff_getElem]
    intro i j hi hj hij h
    simp only [List.getElem_mapIdx, Spot.mk.injEq, true_and] at h
    omega
  | peeking items => exact List.Pairwise.nil

theorem child_eq_of_common_way {way w : List Turn} {i j : Nat} (hi : way ++ [.child i] <+: w)
    (hj : way ++ [.child j] <+: w) : i = j := by
  have h := List.prefix_of_prefix_length_le hi hj (by simp)
  simpa using h.eq_of_length (by simp)

theorem Plan.distinct_lists (n : Nat) (way : List Turn) (p : Plan α n) :
    Distinct (Plan.lists n (Plan.label n way p)).flatten := by
  induction n generalizing way with
  | zero => exact Leaf.distinct_lists way p
  | succ n ih =>
    cases p with
    | leaf l => exact Leaf.distinct_lists way l
    | filtered of keeps => exact ih _ of
    | sequential of =>
      change Distinct (List.flatMap (Plan.lists n) _).flatten
      rw [List.flatMap_def, List.flatten_flatten, List.map_map, ← List.flatMap_def, Distinct,
        List.pairwise_flatMap]
      refine ⟨?_, ?_⟩
      · intro q hq
        obtain ⟨i, hi, rfl⟩ := List.mem_mapIdx.mp hq
        exact ih _ _
      · -- the ways into two sub-cursors differ in the turn taken here
        rw [List.pairwise_iff_getElem]
        intro i j hi hj hij o ho o' ho' h
        simp only [List.getElem_mapIdx] at ho ho'
        have hw := Plan.way_of_mem_lists n _ _ ho
        have hw' := Plan.way_of_mem_lists n _ _ ho'
        rw [h] at hw
        exact absurd (child_eq_of_common_way hw hw') (by omega)

end CursorExpression

end ClassListing
