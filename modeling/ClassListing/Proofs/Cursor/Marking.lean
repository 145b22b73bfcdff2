import ClassListing.Proofs.Cursor.Occurrence
import ClassListing.Proofs.Cursor.Tracking

/-!
# Removals from expressions

Expressions are viewed as the combinations that they are, at every depth. In an expression that is marked
the elements at the end of ways through sequences, to editable leaves, are the ones that removing
takes out; of all others it says that this is not supported.
-/

namespace ClassListing.CursorExpression

set_option autoImplicit false

open Holdings

variable {α π σ : Type}

/-! ## Layers -/

theorem View.Brings.counted {V : View σ α} {S : Supply (Ledger α) π σ} {lists : π → List (List α)}
    {PlanMarked : π → Prop} (hS : V.Brings S lists PlanMarked) :
    V.Brings (LayerState.counted S) lists PlanMarked :=
  ⟨fun p _ => hS.sound p _, fun p w => hS.grows p { w with pulled := w.pulled + 1 },
    fun p _ => hS.marked p _, fun _ => rfl⟩

def Leaf.Marked (mark : α → Bool) : Leaf α → Prop
  | editable items => ∀ x ∈ items, mark x = true
  | peeking items => ∀ x ∈ items, mark x = false

def Layer.Marked (elements : π → List α) (mark : α → Bool) (inner : π → Prop) : Layer α π → Prop
  | leaf l => l.Marked mark
  | sequential of => ∀ p ∈ of, inner p
  | filtered of _ => ∀ x ∈ elements of, mark x = false

theorem LeafState.build_brought (mark : α → Bool) (l : Leaf α) (w : Ledger α) :
    Grows [] l.lists w.lists (build l w).1.held [] (build l w).2.lists ∧
      (l.Marked mark → (build l w).1.Marked mark) := by
  cases l with
  | editable items =>
    exact ⟨⟨⟨[items], rfl, rfl, .refl _⟩, by simp [build, held, Editable.ofList]⟩, fun hm => hm⟩
  | peeking items => exact ⟨Grows.refl ⟨.nil, by simp⟩, fun hm => hm⟩

namespace LayerState

variable {C : Cursor (Ledger α) σ α} {S : Supply (Ledger α) π σ} {R : C.Reading}
  {elements : π → List α} {V : View σ α} {lists : π → List (List α)} {PlanMarked : π → Prop}
  {mark : α → Bool}

def view (R : C.Reading) (V : View σ α) (lists : π → List (List α)) (PlanMarked : π → Prop)
    (mark : α → Bool) : View (LayerState α π σ) α where
  held
    | leaf s => (LeafState.view mark).held s
    | sequential s => (Sequence.view V lists PlanMarked).held s
    | filtered s keeps => (Selection.view R V mark keeps.accept).held s
  unmade
    | leaf s => (LeafState.view mark).unmade s
    | sequential s => (Sequence.view V lists PlanMarked).unmade s
    | filtered s keeps => (Selection.view R V mark keeps.accept).unmade s
  Sound
    | leaf s => (LeafState.view mark).Sound s
    | sequential s => (Sequence.view V lists PlanMarked).Sound s
    | filtered s keeps => (Selection.view R V mark keeps.accept).Sound s
  Marked
    | leaf s => (LeafState.view mark).Marked s
    | sequential s => (Sequence.view V lists PlanMarked).Marked s
    | filtered s keeps => (Selection.view R V mark keeps.accept).Marked s
  Aims
    | leaf s => (LeafState.view mark).Aims s
    | sequential s => (Sequence.view V lists PlanMarked).Aims s
    | filtered s keeps => (Selection.view R V mark keeps.accept).Aims s

theorem ask_lists (keeps : Filter α) (x : α) (w : Ledger α) : (ask keeps x w).2.lists = w.lists :=
  rfl

theorem tracks (hV : V.Tracks C R mark) (hS : V.Brings S lists PlanMarked)
    (hM : S.Makes R elements) :
    (view R V lists PlanMarked mark).Tracks (LayerState.cursor C S) (LayerState.reading hM) mark := by
  have hL := LeafState.tracks mark
  have hQ := Sequence.tracks hV hS.counted (counted_makes hM)
  have hF := fun keeps : Filter α => Selection.tracks hV (ask_eq keeps) (ask_lists keeps)
  exact {
    valid {s} hs := by
      cases s with
      | leaf s => exact hs
      | sequential s => exact Sequence.valid_of_sound hV hs
      | filtered s keeps => exact hs.valid
    next {s w} hs hf := by
      cases s with
      | leaf s =>
        obtain ⟨hso, hg, hm⟩ := hL.next hs hf
        exact ⟨hso, hg, hm⟩
      | sequential s =>
        obtain ⟨hso, hg, hm⟩ := hQ.next hs hf
        exact ⟨hso, hg, hm⟩
      | filtered s keeps =>
        obtain ⟨hso, hg, hm⟩ := (hF keeps).next hs hf
        exact ⟨hso, hg, hm⟩
    next_end {s w} hs hf hn := by
      cases s with
      | leaf s => exact hL.next_end hs hf hn
      | sequential s => exact hQ.next_end hs hf hn
      | filtered s keeps => exact (hF keeps).next_end hs hf hn
    next_aims {s w x} hs hf hm hx := by
      cases s with
      | leaf s => exact hL.next_aims hs hf hm hx
      | sequential s => exact hQ.next_aims hs hf hm hx
      | filtered s keeps => exact (hF keeps).next_aims hs hf hm hx
    hasNext {s w} hs hf := by
      cases s with
      | leaf s =>
        obtain ⟨hso, hg, hm⟩ := hL.hasNext hs hf
        exact ⟨hso, hg, hm⟩
      | sequential s =>
        obtain ⟨hso, hg, hm⟩ := hQ.hasNext hs hf
        exact ⟨hso, hg, hm⟩
      | filtered s keeps =>
        obtain ⟨hso, hg, hm⟩ := (hF keeps).hasNext hs hf
        exact ⟨hso, hg, hm⟩
    hasNext_end {s w} hs hf hm := by
      cases s with
      | leaf s => exact hL.hasNext_end hs hf hm
      | sequential s => exact hQ.hasNext_end hs hf hm
      | filtered s keeps => exact (hF keeps).hasNext_end hs hf hm
    hasNext_aims {s w x} hs hf ha := by
      cases s with
      | leaf s => exact hL.hasNext_aims hs hf ha
      | sequential s => exact hQ.hasNext_aims hs hf ha
      | filtered s keeps => exact (hF keeps).hasNext_aims hs hf ha
    remove {s w x} hs hf ha := by
      cases s with
      | leaf s =>
        obtain ⟨hso, hu, hm, hp, hi⟩ := hL.remove hs hf ha
        exact ⟨hso, hu, hm, hp, hi⟩
      | sequential s =>
        obtain ⟨hso, hu, hm, hp, hi⟩ := hQ.remove hs hf ha
        exact ⟨hso, hu, hm, hp, hi⟩
      | filtered s keeps =>
        obtain ⟨hso, hu, hm, hp, hi⟩ := (hF keeps).remove hs hf ha
        exact ⟨hso, hu, hm, hp, hi⟩ }

theorem start_brought (hS : V.Brings S lists PlanMarked) (of : List π) (w : Ledger α) :
    let s := Sequential.start S of w
    (Sequence.view V lists PlanMarked).Sound s.1 ∧
      Grows [] (of.flatMap lists) w.lists ((Sequence.view V lists PlanMarked).held s.1)
        ((Sequence.view V lists PlanMarked).unmade s.1) s.2.lists ∧
      ((∀ p ∈ of, PlanMarked p) → (Sequence.view V lists PlanMarked).Marked s.1) := by
  cases of with
  | nil =>
    refine ⟨⟨by simp [Sequential.start], by simp [Sequential.start], fun _ => rfl⟩, ?_, ?_⟩
    · simpa [Sequential.start, hS.ended, Sequence.view] using
        (Grows.refl ⟨.nil, by simp⟩ : Grows [] [] w.lists [] [] w.lists)
    · exact fun _ => ⟨by simp [Sequential.start], by simp [Sequential.start]⟩
  | cons p ps =>
    refine ⟨⟨by simpa [Sequential.start] using hS.sound p w, by simp [Sequential.start],
      by simp [Sequential.start]⟩, (hS.grows p w).append_unmade (ps.flatMap lists), fun hm => ?_⟩
    obtain ⟨hp, hps⟩ := List.forall_mem_cons.mp hm
    exact ⟨by simpa [Sequential.start] using hS.marked p w hp, hps⟩

theorem brings (hV : V.Tracks C R mark) (hS : V.Brings S lists PlanMarked)
    (hM : S.Makes R elements) :
    (view R V lists PlanMarked mark).Brings ⟨LayerState.build C S, fun w => w, Layer.bound S.bound⟩
      (Layer.lists lists) (Layer.Marked elements mark PlanMarked) where
  sound p w := by
    cases p with
    | leaf l => exact LeafState.valid_build l w
    | sequential of => exact (start_brought hS.counted of w).1
    | filtered of keeps =>
      exact (Selection.refill_found hV (ask_eq keeps) (ask_lists keeps) (hS.sound of w)
        (hS.fits of w)).1
  grows p w := by
    cases p with
    | leaf l => exact (LeafState.build_brought mark l w).1
    | sequential of => exact (start_brought hS.counted of w).2.1
    | filtered of keeps =>
      exact (hS.grows of w).trans (Selection.refill_found hV (ask_eq keeps) (ask_lists keeps)
        (hS.sound of w) (hS.fits of w)).2
  marked p w hm := by
    cases p with
    | leaf l => exact (LeafState.build_brought mark l w).2 hm
    | sequential of => exact (start_brought hS.counted of w).2.2 hm
    | filtered of keeps =>
      intro x hx
      have hl := left_build hM (.filtered of keeps) w
      change x ∈ left R elements (build C S (.filtered of keeps) w).1 at hx
      rw [hl] at hx
      exact hm x (List.mem_of_mem_filter hx)
  ended _ := rfl

end LayerState

/-! ## Expressions -/

/-- The expression is marked: the elements that can be removed are, and the others are not. -/
def Plan.Marked (mark : α → Bool) : (n : Nat) → Plan α n → Prop
  | 0 => Leaf.Marked mark
  | n + 1 => Layer.Marked (Plan.elements n) mark (Plan.Marked mark n)

def view (mark : α → Bool) : (n : Nat) → View (State α n) α
  | 0 => LeafState.view mark
  | n + 1 => LayerState.view (reading α n) (view mark n) (Plan.lists n) (Plan.Marked mark n) mark

theorem view_tracks_brings (mark : α → Bool) (n : Nat) :
    (view mark n).Tracks (cursor α n) (reading α n) mark ∧
      (view mark n).Brings (supply α n) (Plan.lists n) (Plan.Marked mark n) := by
  -- moving on in a layer makes sub-cursors, so neither half goes through without the other
  induction n with
  | zero =>
    exact ⟨LeafState.tracks mark, LeafState.valid_build,
      fun l w => (LeafState.build_brought mark l w).1,
      fun l w => (LeafState.build_brought mark l w).2, fun _ => rfl⟩
  | succ n ih =>
    obtain ⟨hV, hS⟩ := ih
    have hM := (readingMakes α n).2
    exact ⟨LayerState.tracks hV hS hM, LayerState.brings hV hS hM⟩

theorem Leaf.marked_label {way : List Turn} (hw : .filter ∉ way) (l : Leaf α) :
    (l.label way).Marked Occurrence.removable := by
  cases l <;>
  · intro o ho
    obtain ⟨i, hi, rfl⟩ := List.mem_mapIdx.mp ho
    simp [Occurrence.removable, hw]

/-- As long as nothing is filtered on the way to an expression, the elements that can be removed from
it are those at the end of ways through sequences only, to editable leaves. -/
theorem Plan.marked_label (n : Nat) {way : List Turn} (hw : .filter ∉ way) (p : Plan α n) :
    Plan.Marked Occurrence.removable n (Plan.label n way p) := by
  induction n generalizing way with
  | zero => exact Leaf.marked_label hw p
  | succ n ih =>
    cases p with
    | leaf l => exact Leaf.marked_label hw l
    | sequential of =>
      intro q hq
      obtain ⟨i, hi, rfl⟩ := List.mem_mapIdx.mp hq
      exact ih (by simp [hw]) _
    | filtered of keeps =>
      intro o ho
      have hway := (Plan.way_of_mem_label n _ of ho).subset (List.mem_append_right _ (.head _))
      simp [Occurrence.removable, hway]

end ClassListing.CursorExpression
