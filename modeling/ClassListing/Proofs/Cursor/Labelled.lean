import ClassListing.Proofs.Cursor.Occurrence

/-!
# Labelled expressions at work

The states of a labelled expression and of the expression it comes from correspond: leaves hold the same
lists at the same positions, and the ledgers the same lists. So every sequence of calls is answered
alike.
-/

namespace ClassListing

set_option autoImplicit false

variable {α β : Type}

/-! ## Leaves -/

namespace Editable

def map (f : β → α) (c : Editable β) : Editable α := ⟨c.items.map f, c.position, c.removable⟩

theorem next_map (f : β → α) (c : Editable β) :
    (c.map f).next = (c.next.1.map f, c.next.2.map f) := by
  cases h : c.items[c.position]? <;> simp [next, map, h]

theorem hasNext_map (f : β → α) (c : Editable β) : (c.map f).hasNext = c.hasNext := by
  simp [hasNext, map]

theorem remove_map (f : β → α) (c : Editable β) :
    (c.map f).remove = (c.remove.1, c.remove.2.map f) := by
  cases h : c.removable <;> simp [remove, map, h, List.eraseIdx_eq_take_drop_succ]

end Editable

namespace Peeking

def map (f : β → α) (c : Peeking β) : Peeking α := ⟨c.peeked.map (Option.map f), c.unread.map f⟩

theorem next_map (f : β → α) (c : Peeking β) :
    (c.map f).next = (c.next.1.map f, c.next.2.map f) := by
  obtain ⟨peeked, unread⟩ := c
  cases peeked <;> simp [next, map]

theorem hasNext_map (f : β → α) (c : Peeking β) :
    (c.map f).hasNext = (c.hasNext.1, c.hasNext.2.map f) := by
  obtain ⟨peeked, unread⟩ := c
  cases peeked <;> simp [hasNext, map]

end Peeking

namespace CursorExpression

structure Ledger.Image (f : β → α) (w : Ledger β) (v : Ledger α) : Prop where
  lists : v.lists = w.lists.map (List.map f)
  reads : v.reads = w.reads

def Leaf.map (f : β → α) : Leaf β → Leaf α
  | editable items => .editable (items.map f)
  | peeking items => .peeking (items.map f)

def LeafState.map (f : β → α) : LeafState β → LeafState α
  | editable slot c => .editable slot (c.map f)
  | peeking slot size c => .peeking slot size (c.map f)

def LeafState.Image (f : β → α) (s : LeafState β) (t : LeafState α) : Prop := t = s.map f

theorem LeafState.enter_image {f : β → α} (s : LeafState β) {w : Ledger β} {v : Ledger α}
    (hw : w.Image f v) : (s.enter w).Image f ((s.map f).enter v) := by
  obtain ⟨hl, hr⟩ := hw
  cases s with
  | editable slot c => exact ⟨by simp [enter, map, Editable.map, hl], hr⟩
  | peeking slot size c => exact ⟨hl, by simp [enter, map, Peeking.map, hr]⟩

theorem LeafState.cursor_image (f : β → α) :
    (LeafState.cursor β).Image f (Image f) (Ledger.Image f) (LeafState.cursor α) where
  next := by
    rintro s _ w v rfl hw
    cases s with
    | editable slot c =>
      have hn := Editable.next_map f c
      have he := enter_image (editable slot c.next.2) hw
      exact ⟨by simp [cursor, next, map, hn], by simp [Image, cursor, next, map, hn],
        by simpa [cursor, next, map, hn] using he⟩
    | peeking slot size c =>
      have hn := Peeking.next_map f c
      have he := enter_image (peeking slot size c.next.2) hw
      exact ⟨by simp [cursor, next, map, hn], by simp [Image, cursor, next, map, hn],
        by simpa [cursor, next, map, hn] using he⟩
  hasNext := by
    rintro s _ w v rfl hw
    cases s with
    | editable slot c => exact ⟨(Editable.hasNext_map f c).symm, rfl, hw⟩
    | peeking slot size c =>
      have hn := Peeking.hasNext_map f c
      have he := enter_image (peeking slot size c.hasNext.2) hw
      exact ⟨by simp [cursor, hasNext, map, hn], by simp [Image, cursor, hasNext, map, hn],
        by simpa [cursor, hasNext, map, hn] using he⟩
  remove := by
    rintro s _ w v rfl hw
    cases s with
    | editable slot c =>
      have hn := Editable.remove_map f c
      have he := enter_image (editable slot c.remove.2) hw
      exact ⟨by simp [cursor, remove, map, hn], by simp [Image, cursor, remove, map, hn],
        by simpa [cursor, remove, map, hn] using he⟩
    | peeking slot size c => exact ⟨rfl, rfl, hw⟩
  bound := by
    rintro s _ rfl
    cases s <;> simp [cursor, bound, map, Editable.map, Peeking.map]

theorem LeafState.build_image (f : β → α) (l : Leaf β) {w : Ledger β} {v : Ledger α}
    (hw : w.Image f v) :
    (build l w).1.Image f (build (l.map f) v).1 ∧
      (build l w).2.Image f (build (l.map f) v).2 := by
  obtain ⟨hl, hr⟩ := hw
  cases l with
  | editable items => exact ⟨by simp [Image, build, Leaf.map, map, hl, Editable.ofList, Editable.map],
      ⟨by simp [build, Leaf.map, hl], hr⟩⟩
  | peeking items => exact ⟨by simp [Image, build, Leaf.map, map, hr, Peeking.ofList, Peeking.map],
      ⟨hl, by simp [build, Leaf.map, hr]⟩⟩

/-! ## Layers -/

variable {π ρ σ τ : Type}

/-- Corresponding layers are made alike from corresponding plans, with filters that agree. -/
inductive Layer.Image (f : β → α) (P : π → ρ → Prop) : Layer β π → Layer α ρ → Prop where
  | leaf (l : Leaf β) : Image f P (.leaf l) (.leaf (l.map f))
  | sequential {ps : List π} {qs : List ρ} :
      List.Forall₂ P ps qs → Image f P (.sequential ps) (.sequential qs)
  | filtered {p : π} {q : ρ} {keeps : Filter β} {keeps' : Filter α} :
      P p q → (∀ x, keeps'.accept (f x) = keeps.accept x) →
      Image f P (.filtered p keeps) (.filtered q keeps')

inductive LayerState.Image (f : β → α) (P : π → ρ → Prop) (R : σ → τ → Prop) :
    LayerState β π σ → LayerState α ρ τ → Prop where
  | leaf {s : LeafState β} {t : LeafState α} : s.Image f t → Image f P R (.leaf s) (.leaf t)
  | sequential {s : Sequential π σ} {t : Sequential ρ τ} :
      s.Image P R t → Image f P R (.sequential s) (.sequential t)
  | filtered {s : Filtered σ β} {t : Filtered τ α} {keeps : Filter β} {keeps' : Filter α} :
      s.Image f R t → (∀ x, keeps'.accept (f x) = keeps.accept x) →
      Image f P R (.filtered s keeps) (.filtered t keeps')

variable {f : β → α} {P : π → ρ → Prop} {R : σ → τ → Prop} {C : Cursor (Ledger β) σ β}
  {D : Cursor (Ledger α) τ α} {S : Supply (Ledger β) π σ} {T : Supply (Ledger α) ρ τ}

theorem ask_image {keeps : Filter β} {keeps' : Filter α}
    (h : ∀ x, keeps'.accept (f x) = keeps.accept x) :
    Filtered.AskImage f (Ledger.Image f) (ask keeps) (ask keeps') :=
  fun x _ _ hw => ⟨h x, ⟨hw.lists, hw.reads⟩⟩

theorem LayerState.counted_image (hS : S.Image P R (Ledger.Image f) T) :
    (counted S).Image P R (Ledger.Image f) (counted T) where
  build hp hw := hS.build hp ⟨hw.lists, hw.reads⟩
  ended hw := ⟨hw.lists, hw.reads⟩
  bound hp := hS.bound hp

theorem LayerState.cursor_image (hC : C.Image f R (Ledger.Image f) D)
    (hS : S.Image P R (Ledger.Image f) T) :
    (LayerState.cursor C S).Image f (LayerState.Image f P R) (Ledger.Image f)
      (LayerState.cursor D T) where
  next := by
    intro s t w v hs hw
    cases hs with
    | leaf hs =>
      obtain ⟨hr, hs', hw'⟩ := (LeafState.cursor_image f).next hs hw
      exact ⟨hr, .leaf hs', hw'⟩
    | sequential hs =>
      obtain ⟨hr, hs', hw'⟩ := Sequential.next_image hC (counted_image hS) hs hw
      exact ⟨hr, .sequential hs', hw'⟩
    | filtered hs hk =>
      obtain ⟨hr, hs', hw'⟩ := Filtered.next_image hC (ask_image hk) hs hw
      exact ⟨hr, .filtered hs' hk, hw'⟩
  hasNext := by
    intro s t w v hs hw
    cases hs with
    | leaf hs =>
      obtain ⟨hr, hs', hw'⟩ := (LeafState.cursor_image f).hasNext hs hw
      exact ⟨hr, .leaf hs', hw'⟩
    | sequential hs =>
      obtain ⟨hr, hs', hw'⟩ := Sequential.advance_image hC (counted_image hS) hs hw
      exact ⟨hr, .sequential hs', hw'⟩
    | filtered hs hk =>
      obtain ⟨hr, hs', hw'⟩ := (Filtered.cursor_image hC (ask_image hk)).hasNext hs hw
      exact ⟨hr, .filtered hs' hk, hw'⟩
  remove := by
    intro s t w v hs hw
    cases hs with
    | leaf hs =>
      obtain ⟨hr, hs', hw'⟩ := (LeafState.cursor_image f).remove hs hw
      exact ⟨hr, .leaf hs', hw'⟩
    | sequential hs =>
      obtain ⟨hr, hs', hw'⟩ := Sequential.remove_image hC hs hw
      exact ⟨hr, .sequential hs', hw'⟩
    | filtered hs hk => exact ⟨rfl, .filtered hs hk, hw⟩
  bound := by
    intro s t hs
    cases hs with
    | leaf hs => exact (LeafState.cursor_image f).bound hs
    | sequential hs => exact (Sequential.cursor_image hC (counted_image hS)).bound hs
    | filtered hs hk => exact (Filtered.cursor_image hC (ask_image hk)).bound hs

theorem LayerState.build_image (hC : C.Image f R (Ledger.Image f) D)
    (hS : S.Image P R (Ledger.Image f) T) {p : Layer β π} {q : Layer α ρ} (hp : p.Image f P q)
    {w : Ledger β} {v : Ledger α} (hw : w.Image f v) :
    LayerState.Image f P R (build C S p w).1 (build D T q v).1 ∧
      (build C S p w).2.Image f (build D T q v).2 := by
  cases hp with
  | leaf l =>
    have hb := LeafState.build_image f l hw
    exact ⟨.leaf hb.1, hb.2⟩
  | sequential hps =>
    have hb := Sequential.start_image (counted_image hS) hps hw
    exact ⟨.sequential hb.1, hb.2⟩
  | filtered hpq hk =>
    have hb := hS.build hpq hw
    have hr := Filtered.refill_image hC (ask_image hk) hb.1 hb.2
    exact ⟨.filtered hr.1 hk, hr.2⟩

theorem Leaf.length_elements_map (f : β → α) (l : Leaf β) :
    (l.map f).elements.length = l.elements.length := by
  cases l <;> simp [Leaf.map, Leaf.elements]

theorem Layer.bound_image (hS : S.Image P R (Ledger.Image f) T) {p : Layer β π} {q : Layer α ρ}
    (hp : p.Image f P q) : p.bound S.bound = q.bound T.bound := by
  cases hp with
  | leaf l => exact congrArg Nat.succ (Leaf.length_elements_map f l).symm
  | sequential hps => exact Sequential.foldr_bound_image hS hps
  | filtered hpq _ => exact hS.bound hpq

/-! ## Expressions -/

def Plan.Image (f : β → α) : (n : Nat) → Plan β n → Plan α n → Prop
  | 0 => fun l m => m = Leaf.map f l
  | n + 1 => Layer.Image f (Plan.Image f n)

def State.Image (f : β → α) : (n : Nat) → State β n → State α n → Prop
  | 0 => LeafState.Image f
  | n + 1 => LayerState.Image f (Plan.Image f n) (State.Image f n)

/-- Corresponding expressions are started and used alike. -/
theorem operations_image (f : β → α) (n : Nat) :
    (operations β n).1.Image f (State.Image f n) (Ledger.Image f) (operations α n).1 ∧
      (operations β n).2.Image (Plan.Image f n) (State.Image f n) (Ledger.Image f)
        (operations α n).2 := by
  -- a layer starts and uses what is below, so both halves go through the induction together
  induction n with
  | zero =>
    refine ⟨LeafState.cursor_image f, ?_, fun hw => hw, ?_⟩
    · rintro l _ w v rfl hw
      exact LeafState.build_image f l hw
    · rintro l _ rfl
      exact congrArg Nat.succ (Leaf.length_elements_map f l).symm
  | succ n ih =>
    obtain ⟨hC, hS⟩ := ih
    exact ⟨LayerState.cursor_image hC hS, fun hp hw => LayerState.build_image hC hS hp hw,
      fun hw => hw, fun hp => Layer.bound_image hS hp⟩

theorem Leaf.map_label (way : List Turn) (l : Leaf α) :
    (l.label way).map Occurrence.element = l := by
  cases l <;>
  · simp only [Leaf.map, Leaf.label, Leaf.editable.injEq, Leaf.peeking.injEq]
    exact List.ext_getElem (by simp) (by simp)

theorem Plan.image_label (n : Nat) (way : List Turn) (p : Plan α n) :
    Plan.Image Occurrence.element n (Plan.label n way p) p := by
  induction n generalizing way with
  | zero => exact (Leaf.map_label way p).symm
  | succ n ih =>
    cases p with
    | leaf l =>
      have h : Plan.Image Occurrence.element (n + 1) _ (.leaf ((l.label way).map _)) :=
        .leaf (l.label way)
      rwa [Leaf.map_label] at h
    | sequential of =>
      refine .sequential (List.forall₂_iff_get.mpr ⟨by simp, ?_⟩)
      intro i hi hi'
      simpa using ih _ _
    | filtered of keeps => exact .filtered (ih _ of) fun x => (Filter.accept_comap _ _ x).symm

end CursorExpression

end ClassListing
