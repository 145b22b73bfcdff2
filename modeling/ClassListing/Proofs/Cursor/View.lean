import ClassListing.Proofs.Cursor.Holding
import ClassListing.Proofs.Cursor.Meaning

/-!
# What a removal is about

A view of a cursor says of each state what it holds of the ledger and which element a removal would be
about. An element is marked if removing it is possible at all. Reading on changes the content of no
list, and a removal takes out the element yielded last or nothing. Views of the inner cursors make
a view of a combination.
-/

namespace ClassListing.CursorExpression

set_option autoImplicit false

open Holdings

variable {α π σ : Type}

structure View (σ α : Type) where
  held : σ → Holdings α
  unmade : σ → List (List α)
  Sound : σ → Prop
  /-- The elements to come are marked as their leaves are. -/
  Marked : σ → Prop
  /-- A removal is about the element. -/
  Aims : σ → α → Prop

namespace View

structure Reads (V : View σ α) (s : σ) (w : Ledger α) (s' : σ) (w' : Ledger α) : Prop where
  sound : V.Sound s'
  grows : Grows (V.held s) (V.unmade s) w.lists (V.held s') (V.unmade s') w'.lists
  marked : V.Marked s → V.Marked s'

theorem Reads.refl {V : View σ α} {s : σ} {w : Ledger α} (hs : V.Sound s)
    (hf : Fits (V.held s) w.lists) : V.Reads s w s w :=
  ⟨hs, Grows.refl hf, fun hm => hm⟩

theorem Reads.trans {V : View σ α} {s s' s'' : σ} {w w' w'' : Ledger α} (h : V.Reads s w s' w')
    (h' : V.Reads s' w' s'' w'') : V.Reads s w s'' w'' :=
  ⟨h'.sound, h.grows.trans h'.grows, fun hm => h'.marked (h.marked hm)⟩

/-- What follows from a removal that is about an element. -/
structure Removes (V : View σ α) (mark : α → Bool) (x : α) (s : σ) (w : Ledger α)
    (r : Except RemoveError Unit × σ × Ledger α) : Prop where
  sound : V.Sound r.2.1
  unmade_eq : V.unmade r.2.1 = V.unmade s
  marked : V.Marked s → V.Marked r.2.1
  possible : mark x = true →
    r.1 = .ok () ∧ Erases x (V.held s) w.lists (V.held r.2.1) r.2.2.lists
  impossible : mark x = false →
    r.1 = .error .notSupported ∧ (V.held r.2.1).Sublist (V.held s) ∧ r.2.2.lists = w.lists

/-- The view is right for the operations of the cursor. -/
structure Tracks (V : View σ α) (C : Cursor (Ledger α) σ α) (R : C.Reading) (mark : α → Bool) :
    Prop where
  valid : ∀ {s}, V.Sound s → R.Valid s
  next : ∀ {s w}, V.Sound s → Fits (V.held s) w.lists →
    V.Reads s w (C.next s w).2.1 (C.next s w).2.2
  next_end : ∀ {s w}, V.Sound s → Fits (V.held s) w.lists → (C.next s w).1 = none →
    V.unmade (C.next s w).2.1 = [] ∧ ∀ x, V.Aims s x → V.Aims (C.next s w).2.1 x
  next_aims : ∀ {s w x}, V.Sound s → Fits (V.held s) w.lists → V.Marked s →
    (C.next s w).1 = some x → V.Aims (C.next s w).2.1 x
  hasNext : ∀ {s w}, V.Sound s → Fits (V.held s) w.lists →
    V.Reads s w (C.hasNext s w).2.1 (C.hasNext s w).2.2
  hasNext_end : ∀ {s w}, V.Sound s → Fits (V.held s) w.lists → (C.hasNext s w).1 = false →
    V.unmade (C.hasNext s w).2.1 = []
  hasNext_aims : ∀ {s w x}, V.Sound s → Fits (V.held s) w.lists → V.Aims s x →
    V.Aims (C.hasNext s w).2.1 x
  remove : ∀ {s w x}, V.Sound s → Fits (V.held s) w.lists → V.Aims s x →
    V.Removes mark x s w (C.remove s w)

structure Brings (V : View σ α) (S : Supply (Ledger α) π σ) (lists : π → List (List α))
    (PlanMarked : π → Prop) : Prop where
  sound : ∀ p w, V.Sound (S.build p w).1
  grows : ∀ p w, Grows [] (lists p) w.lists (V.held (S.build p w).1) (V.unmade (S.build p w).1)
    (S.build p w).2.lists
  marked : ∀ p w, PlanMarked p → V.Marked (S.build p w).1
  ended : ∀ w, (S.ended w).lists = w.lists

theorem Brings.fits {V : View σ α} {S : Supply (Ledger α) π σ} {lists : π → List (List α)}
    {PlanMarked : π → Prop} (hS : V.Brings S lists PlanMarked) (p : π) (w : Ledger α) :
    Fits (V.held (S.build p w).1) (S.build p w).2.lists :=
  (hS.grows p w).fits ⟨.nil, by simp⟩

end View

/-! ## Leaves -/

theorem set_of_lookup {lists : List (List α)} {j : Nat} {items : List α}
    (h : lists[j]? = some items) : lists.set j items = lists := by
  obtain ⟨hj, rfl⟩ := List.getElem?_eq_some_iff.mp h
  exact List.set_getElem_self hj

namespace LeafState

def held : LeafState α → Holdings α
  | editable slot c => [(slot, c.items)]
  | peeking .. => []

def Marked (mark : α → Bool) : LeafState α → Prop
  | editable _ c => ∀ x ∈ c.items, mark x = true
  | peeking _ _ c => ∀ x ∈ c.remaining, mark x = false

def Aims (mark : α → Bool) : LeafState α → α → Prop
  | editable _ c, x => mark x = true ∧ c.removable = true ∧ c.items[c.position - 1]? = some x
  | peeking .., x => mark x = false

def view (mark : α → Bool) : View (LeafState α) α :=
  ⟨held, fun _ => [], Valid, Marked mark, Aims mark⟩

variable {mark : α → Bool} {s : LeafState α} {w : Ledger α} {x : α}

theorem reads_next (hs : s.Valid) (hf : Fits s.held w.lists) :
    (view mark).Reads s w (s.next w).2.1 (s.next w).2.2 := by
  have hv := (reading α).next_valid w hs
  cases s with
  | editable slot c =>
    have hl := set_of_lookup (hf.lookup _ (List.mem_singleton_self _))
    simp only at hl
    have hg : Grows [(slot, c.items)] [] w.lists [(slot, c.items)] [] w.lists := Grows.refl hf
    refine ⟨hv, ?_, ?_⟩
    · simpa [view, held, next, enter, Editable.next_items, hl] using hg
    · simp [view, Marked, next, Editable.next_items]
  | peeking slot size c =>
    refine ⟨hv, Grows.refl hf, fun hm x hx => ?_⟩
    change x ∈ c.next.2.remaining at hx
    rw [(Peeking.next_remaining hs).2] at hx
    exact hm x (List.mem_of_mem_tail hx)

theorem aims_next_end (hn : (s.next w).1 = none) (ha : s.Aims mark x) :
    (s.next w).2.1.Aims mark x := by
  cases s with
  | editable slot c =>
    simp only [next] at hn ⊢
    by_cases hc : c.position < c.items.length
    · simp [Editable.next_of_lt hc] at hn
    · rwa [Editable.next_of_le (Nat.le_of_not_lt hc)]
  | peeking slot size c => exact ha

theorem aims_next (hs : s.Valid) (hm : s.Marked mark) (hx : (s.next w).1 = some x) :
    (s.next w).2.1.Aims mark x := by
  cases s with
  | editable slot c =>
    simp only [next] at hx ⊢
    by_cases hc : c.position < c.items.length
    · rw [Editable.next_of_lt hc] at hx ⊢
      cases hx
      exact ⟨hm _ (List.getElem_mem hc), rfl, by simp [hc]⟩
    · simp [Editable.next_of_le (Nat.le_of_not_lt hc)] at hx
  | peeking slot size c =>
    simp only [next, (Peeking.next_remaining hs).1] at hx
    exact hm x (List.mem_of_head? hx)

theorem reads_hasNext (hs : s.Valid) (hf : Fits s.held w.lists) :
    (view mark).Reads s w (s.hasNext w).2.1 (s.hasNext w).2.2 := by
  have hv := (reading α).hasNext_valid w hs
  cases s with
  | editable slot c => exact ⟨hv, Grows.refl hf, fun hm => hm⟩
  | peeking slot size c =>
    refine ⟨hv, Grows.refl hf, fun hm x hx => ?_⟩
    exact hm x ((Peeking.hasNext_remaining c).2 ▸ hx)

/-- The element yielded last stands right before the position. -/
theorem removes_remove (hs : s.Valid) (ha : s.Aims mark x) :
    (view mark).Removes mark x s w (s.remove w) := by
  cases s with
  | editable slot c =>
    obtain ⟨hmark, hr, hx⟩ := ha
    obtain ⟨hlt, hx⟩ := List.getElem?_eq_some_iff.mp hx
    refine ⟨Editable.Valid.remove hs, rfl, ?_, fun _ => ⟨by simp [remove, Editable.remove, hr], ?_⟩,
      by simp [hmark]⟩
    · intro hm y hy
      apply hm y
      simp only [Editable.remove, hr, if_true] at hy
      exact (List.eraseIdx_sublist _ _).subset hy
    · refine ⟨by simp [view, held, remove, slots], slot, c.items.take (c.position - 1),
        c.items.drop (c.position - 1 + 1), ?_, ?_, ?_⟩
      · rw [← hx, List.getElem_cons_drop, List.take_append_drop]
        exact List.mem_singleton_self _
      · simp [remove, Editable.remove, hr, enter, List.eraseIdx_eq_take_drop_succ]
      · simp [remove, Editable.remove, hr, view, held, List.eraseIdx_eq_take_drop_succ]
  | peeking slot size c =>
    have hmark : mark x = false := ha
    exact ⟨hs, rfl, fun hm => hm, by simp [hmark], fun _ => ⟨rfl, .refl _, rfl⟩⟩

theorem tracks (mark : α → Bool) : (view mark).Tracks (LeafState.cursor α) (reading α) mark where
  valid h := h
  next hs hf := reads_next hs hf
  next_end _ _ hn := ⟨rfl, fun _ ha => aims_next_end hn ha⟩
  next_aims hs _ hm hx := aims_next hs hm hx
  hasNext hs hf := reads_hasNext hs hf
  hasNext_end _ _ _ := rfl
  hasNext_aims {s w x} _ _ ha := by cases s <;> exact ha
  remove hs _ ha := removes_remove hs ha

end LeafState

end ClassListing.CursorExpression
