import ClassListing.Cursor.Filtered
import ClassListing.Cursor.Sequential
import ClassListing.Proofs.Cursor.Reading
import Mathlib.Data.List.Forall2

/-!
# Cursors do not look at their elements

Two cursors whose states correspond, the elements of one being images of the elements of the other,
answer every sequence of calls alike. Putting cursors one after another and filtering them by
filters that agree on images keeps this.
-/

namespace ClassListing

set_option autoImplicit false

variable {W V π ρ σ τ α β : Type}

structure Alike {a b : Type} (A : a → b → Prop) (R : σ → τ → Prop) (Q : W → V → Prop)
    (x : a × σ × W) (y : b × τ × V) : Prop where
  result : A x.1 y.1
  state : R x.2.1 y.2.1
  world : Q x.2.2 y.2.2

namespace Cursor

/-- Corresponding states give the same answers, up to the map of elements, and still correspond. -/
structure Image (f : β → α) (R : σ → τ → Prop) (Q : W → V → Prop) (C : Cursor W σ β)
    (D : Cursor V τ α) : Prop where
  next : ∀ {s t w v}, R s t → Q w v →
    Alike (fun x y => y = x.map f) R Q (C.next s w) (D.next t v)
  hasNext : ∀ {s t w v}, R s t → Q w v → Alike Eq R Q (C.hasNext s w) (D.hasNext t v)
  remove : ∀ {s t w v}, R s t → Q w v → Alike Eq R Q (C.remove s w) (D.remove t v)
  bound : ∀ {s t}, R s t → C.bound s = D.bound t

def Answer.map (f : β → α) : Answer β → Answer α
  | next x => next (x.map f)
  | hasNext more => hasNext more
  | remove r => remove r

namespace Image

variable {f : β → α} {R : σ → τ → Prop} {Q : W → V → Prop} {C : Cursor W σ β} {D : Cursor V τ α}

theorem perform (h : Image f R Q C D) (op : Operation) {s : σ} {t : τ} {w : W} {v : V}
    (hs : R s t) (hw : Q w v) :
    Alike (fun x y => y = Answer.map f x) R Q (C.perform op s w) (D.perform op t v) := by
  cases op with
  | next =>
    obtain ⟨hr, hs', hw'⟩ := h.next hs hw
    exact ⟨by simp [Cursor.perform, Answer.map, hr], hs', hw'⟩
  | hasNext =>
    obtain ⟨hr, hs', hw'⟩ := h.hasNext hs hw
    exact ⟨by simp [Cursor.perform, Answer.map, hr], hs', hw'⟩
  | remove =>
    obtain ⟨hr, hs', hw'⟩ := h.remove hs hw
    exact ⟨by simp [Cursor.perform, Answer.map, hr], hs', hw'⟩

theorem run (h : Image f R Q C D) (ops : List Operation) {s : σ} {t : τ} {w : W} {v : V}
    (hs : R s t) (hw : Q w v) :
    Alike (fun as bs => bs = as.map (Answer.map f)) R Q (C.run ops s w) (D.run ops t v) := by
  induction ops generalizing s t w v with
  | nil => exact ⟨rfl, hs, hw⟩
  | cons op ops ih =>
    have hp := h.perform op hs hw
    have hr := ih hp.state hp.world
    exact ⟨by simp only [run_cons, List.map_cons, hp.result, hr.result], hr.state, hr.world⟩

end Image

end Cursor

structure Supply.Image (P : π → ρ → Prop) (R : σ → τ → Prop) (Q : W → V → Prop)
    (S : Supply W π σ) (T : Supply V ρ τ) : Prop where
  build : ∀ {p q w v}, P p q → Q w v →
    R (S.build p w).1 (T.build q v).1 ∧ Q (S.build p w).2 (T.build q v).2
  ended : ∀ {w v}, Q w v → Q (S.ended w) (T.ended v)
  bound : ∀ {p q}, P p q → S.bound p = T.bound q

/-! ## One after another -/

namespace Sequential

structure Image (P : π → ρ → Prop) (R : σ → τ → Prop) (s : Sequential π σ)
    (t : Sequential ρ τ) : Prop where
  pending : List.Forall₂ P s.pending t.pending
  current : Option.Rel R s.current t.current
  retired : Option.Rel R s.retired t.retired
  last : s.last = t.last

variable {f : β → α} {P : π → ρ → Prop} {R : σ → τ → Prop} {Q : W → V → Prop}
  {C : Cursor W σ β} {D : Cursor V τ α} {S : Supply W π σ} {T : Supply V ρ τ}

theorem start_image (hS : S.Image P R Q T) {ps : List π} {qs : List ρ} (hp : List.Forall₂ P ps qs)
    {w : W} {v : V} (hw : Q w v) :
    Image P R (start S ps w).1 (start T qs v).1 ∧ Q (start S ps w).2 (start T qs v).2 := by
  cases hp with
  | nil => exact ⟨⟨.nil, .none, .none, rfl⟩, hS.ended hw⟩
  | cons hpq hps =>
    have hb := hS.build hpq hw
    exact ⟨⟨hps, .some hb.1, .none, rfl⟩, hb.2⟩

theorem kept_image {c : σ} {d : τ} (hc : R c d) {r : Option σ} {r' : Option τ}
    (hr : Option.Rel R r r') (last : LastFrom) :
    Option.Rel R (kept c r last).1 (kept d r' last).1 ∧ (kept c r last).2 = (kept d r' last).2 := by
  unfold kept
  split
  · exact ⟨.some hc, rfl⟩
  · exact ⟨hr, rfl⟩

theorem advanceFrom_image (hC : C.Image f R Q D) (hS : S.Image P R Q T) {ps : List π}
    {qs : List ρ} (hp : List.Forall₂ P ps qs) {c : σ} {d : τ} (hc : R c d) {r : Option σ}
    {r' : Option τ} (hr : Option.Rel R r r') (last : LastFrom) {w : W} {v : V} (hw : Q w v) :
    Alike Eq (Image P R) Q (advanceFrom C S ps c r last w) (advanceFrom D T qs d r' last v) := by
  -- both sides are asked for more and pass over sub-cursors together
  induction hp generalizing c d r r' last w v with
  | nil =>
    obtain ⟨hm, hc', hw'⟩ := hC.hasNext hc hw
    cases hb : (C.hasNext c w).1 with
    | true =>
      rw [advanceFrom_of_more hb, advanceFrom_of_more (hm ▸ hb)]
      exact ⟨rfl, ⟨.nil, .some hc', hr, rfl⟩, hw'⟩
    | false =>
      obtain ⟨hk, hl⟩ := kept_image hc' hr last
      rw [advanceFrom_nil hb, advanceFrom_nil (hm ▸ hb)]
      exact ⟨rfl, ⟨.nil, .none, hk, hl⟩, hS.ended hw'⟩
  | @cons p q ps qs hpq hps ih =>
    obtain ⟨hm, hc', hw'⟩ := hC.hasNext hc hw
    cases hb : (C.hasNext c w).1 with
    | true =>
      rw [advanceFrom_of_more hb, advanceFrom_of_more (hm ▸ hb)]
      exact ⟨rfl, ⟨.cons hpq hps, .some hc', hr, rfl⟩, hw'⟩
    | false =>
      obtain ⟨hk, hl⟩ := kept_image hc' hr last
      have hn := hS.build hpq hw'
      rw [advanceFrom_cons hb, advanceFrom_cons (hm ▸ hb), ← hl]
      exact ih hn.1 hk _ hn.2

theorem advance_image (hC : C.Image f R Q D) (hS : S.Image P R Q T) {s : Sequential π σ}
    {t : Sequential ρ τ} (hs : Image P R s t) {w : W} {v : V} (hw : Q w v) :
    Alike Eq (Image P R) Q (advance C S s w) (advance D T t v) := by
  obtain ⟨ps, c, r, last⟩ := s
  obtain ⟨qs, d, r', last'⟩ := t
  obtain ⟨hp, hc, hr, hl⟩ := hs
  cases hl
  cases hc with
  | none => exact ⟨rfl, ⟨hp, .none, hr, rfl⟩, hw⟩
  | some hcd => exact advanceFrom_image hC hS hp hcd hr last hw

theorem next_image (hC : C.Image f R Q D) (hS : S.Image P R Q T) {s : Sequential π σ}
    {t : Sequential ρ τ} (hs : Image P R s t) {w : W} {v : V} (hw : Q w v) :
    Alike (fun x y => y = x.map f) (Image P R) Q (next C S s w) (next D T t v) := by
  have ha := advance_image hC hS hs hw
  unfold next
  generalize advance C S s w = a at ha
  generalize advance D T t v = b at ha
  obtain ⟨more, ⟨ps, c, r, last⟩, w'⟩ := a
  obtain ⟨more', ⟨qs, d, r', last'⟩, v'⟩ := b
  obtain ⟨hm, ⟨hp, hc, hr, hl⟩, hw'⟩ := ha
  cases hm
  cases hl
  cases hc with
  | none => cases more <;> exact ⟨rfl, ⟨hp, .none, hr, rfl⟩, hw'⟩
  | some hcd =>
    rename_i c d
    cases more with
    | false => exact ⟨rfl, ⟨hp, .some hcd, hr, rfl⟩, hw'⟩
    | true =>
      obtain ⟨hx, hc', hw''⟩ := hC.next hcd hw'
      simp only
      rw [hx]
      cases hn : (C.next c w').1 with
      | none => exact ⟨rfl, ⟨hp, .some hc', hr, rfl⟩, hw''⟩
      | some x => exact ⟨rfl, ⟨hp, .some hc', .none, rfl⟩, hw''⟩

theorem remove_image (hC : C.Image f R Q D) {s : Sequential π σ} {t : Sequential ρ τ}
    (hs : Image P R s t) {w : W} {v : V} (hw : Q w v) :
    Alike Eq (Image P R) Q (remove C s w) (remove D t v) := by
  obtain ⟨ps, c, r, last⟩ := s
  obtain ⟨qs, d, r', last'⟩ := t
  obtain ⟨hp, hc, hr, hl⟩ := hs
  cases hl
  cases last with
  | nothing => exact ⟨rfl, ⟨hp, hc, hr, rfl⟩, hw⟩
  | current =>
    cases hc with
    | none => exact ⟨rfl, ⟨hp, .none, hr, rfl⟩, hw⟩
    | some hcd =>
      obtain ⟨he, hc', hw'⟩ := hC.remove hcd hw
      exact ⟨he, ⟨hp, .some hc', hr, rfl⟩, hw'⟩
  | retired =>
    cases hr with
    | none => exact ⟨rfl, ⟨hp, hc, .none, rfl⟩, hw⟩
    | some hrr =>
      obtain ⟨he, -, hw'⟩ := hC.remove hrr hw
      exact ⟨he, ⟨hp, hc, .none, rfl⟩, hw'⟩

theorem foldr_bound_image (hS : S.Image P R Q T) {ps : List π} {qs : List ρ}
    (hp : List.Forall₂ P ps qs) :
    ps.foldr (fun p n => S.bound p + n) 0 = qs.foldr (fun q n => T.bound q + n) 0 := by
  induction hp with
  | nil => rfl
  | cons hpq _ ih => simp only [List.foldr_cons, hS.bound hpq, ih]

theorem cursor_image (hC : C.Image f R Q D) (hS : S.Image P R Q T) :
    (cursor C S).Image f (Image P R) Q (cursor D T) where
  next hs hw := next_image hC hS hs hw
  hasNext hs hw := advance_image hC hS hs hw
  remove hs hw := remove_image hC hs hw
  bound := by
    intro s t hs
    obtain ⟨ps, c, r, last⟩ := s
    obtain ⟨qs, d, r', last'⟩ := t
    obtain ⟨hp, hc, -, -⟩ := hs
    have hb := foldr_bound_image hS hp
    cases hc with
    | none => simp [cursor, hb]
    | some hcd => simp [cursor, hb, hC.bound hcd]

end Sequential

/-! ## Filtered -/

namespace Filtered

structure Image (f : β → α) (R : σ → τ → Prop) (s : Filtered σ β) (t : Filtered τ α) : Prop where
  inner : R s.inner t.inner
  lookahead : t.lookahead = s.lookahead.map f

/-- The same question about an element and its image is answered alike. -/
def AskImage (f : β → α) (Q : W → V → Prop) (ask : β → W → Bool × W) (ask' : α → V → Bool × V) :
    Prop :=
  ∀ x {w v}, Q w v → (ask' (f x) v).1 = (ask x w).1 ∧ Q (ask x w).2 (ask' (f x) v).2

variable {f : β → α} {R : σ → τ → Prop} {Q : W → V → Prop} {C : Cursor W σ β} {D : Cursor V τ α}
  {ask : β → W → Bool × W} {ask' : α → V → Bool × V}

theorem find_image (hC : C.Image f R Q D) (ha : AskImage f Q ask ask') (bound : Nat) {s : σ} {t : τ}
    (hs : R s t) {w : W} {v : V} (hw : Q w v) :
    Alike (fun x y => y = x.map f) R Q (find C ask bound s w) (find D ask' bound t v) := by
  induction bound generalizing s t w v with
  | zero => exact ⟨rfl, hs, hw⟩
  | succ bound ih =>
    have hn := hC.next hs hw
    unfold find
    generalize C.next s w = a at hn
    generalize D.next t v = b at hn
    obtain ⟨x, s', w'⟩ := a
    obtain ⟨y, t', v'⟩ := b
    obtain ⟨hx, hs', hw'⟩ := hn
    simp only at hx hs' hw'
    subst hx
    cases x with
    | none => exact ⟨rfl, hs', hw'⟩
    | some x =>
      obtain ⟨hyes, hw''⟩ := ha x hw'
      simp only [Option.map_some, hyes]
      split
      · exact ⟨rfl, hs', hw''⟩
      · exact ih hs' hw''

theorem refill_image (hC : C.Image f R Q D) (ha : AskImage f Q ask ask') {s : σ} {t : τ}
    (hs : R s t) {w : W} {v : V} (hw : Q w v) :
    Image f R (refill C ask s w).1 (refill D ask' t v).1 ∧
      Q (refill C ask s w).2 (refill D ask' t v).2 := by
  have hf := find_image hC ha (C.bound s + 1) hs hw
  unfold refill
  rw [← hC.bound hs]
  exact ⟨⟨hf.state, hf.result⟩, hf.world⟩

theorem next_image (hC : C.Image f R Q D) (ha : AskImage f Q ask ask') {s : Filtered σ β}
    {t : Filtered τ α} (hs : Image f R s t) {w : W} {v : V} (hw : Q w v) :
    Alike (fun x y => y = x.map f) (Image f R) Q (next C ask s w) (next D ask' t v) := by
  obtain ⟨inner, lookahead⟩ := s
  obtain ⟨inner', lookahead'⟩ := t
  obtain ⟨hi, hl⟩ := hs
  simp only at hi hl
  subst hl
  cases lookahead with
  | none => exact ⟨rfl, ⟨hi, rfl⟩, hw⟩
  | some x =>
    have hr := refill_image hC ha hi hw
    exact ⟨rfl, hr.1, hr.2⟩

theorem cursor_image (hC : C.Image f R Q D) (ha : AskImage f Q ask ask') :
    (cursor C ask).Image f (Image f R) Q (cursor D ask') where
  next hs hw := next_image hC ha hs hw
  hasNext hs hw := ⟨by simp [cursor, hs.lookahead], hs, hw⟩
  remove hs hw := ⟨rfl, hs, hw⟩
  bound {s t} hs := by cases h : s.lookahead <;> simp [cursor, hs.lookahead, h, hC.bound hs.inner]

end Filtered

end ClassListing
