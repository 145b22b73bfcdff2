import ClassListing.Cursor.Filtered
import ClassListing.Cursor.Peeking
import ClassListing.Cursor.Sequential
import ClassListing.Proofs.Cursor.Reading

/-!
# Readings of combined cursors

A sequence of cursors is going to yield what its current one and its plans yield, a filtered cursor what it
has looked up and the accepted ones of what is left inside. A reading of the inner cursor gives a
reading of the combination, whatever the world is.
-/

namespace ClassListing

set_option autoImplicit false

variable {W π σ α : Type}

def Peeking.reading (W α : Type) : Cursor.Reading (Peeking.cursor W α) where
  Valid := Peeking.Valid
  left := Peeking.remaining
  next _ h := ⟨(Peeking.next_remaining h).1, Peeking.Valid.next, (Peeking.next_remaining h).2⟩
  hasNext {c} _ h :=
    ⟨(Peeking.hasNext_remaining c).1, Peeking.Valid.hasNext h, (Peeking.hasNext_remaining c).2⟩
  remove _ h := ⟨h, rfl⟩
  length_le _ := Peeking.length_remaining_le _

/-- Plans are made into sub-cursors that are going to yield the elements of the plan. -/
structure Supply.Makes (S : Supply W π σ) {C : Cursor W σ α} (R : C.Reading)
    (elements : π → List α) : Prop where
  valid : ∀ p w, R.Valid (S.build p w).1
  left : ∀ p w, R.left (S.build p w).1 = elements p
  length_le : ∀ p, (elements p).length ≤ S.bound p

theorem Supply.Makes.length_flatMap_le {S : Supply W π σ} {C : Cursor W σ α} {R : C.Reading}
    {elements : π → List α} (hS : S.Makes R elements) (of : List π) :
    (of.flatMap elements).length ≤ of.foldr (fun p n => S.bound p + n) 0 := by
  induction of with
  | nil => simp
  | cons p ps ih =>
    have := hS.length_le p
    simp only [List.flatMap_cons, List.length_append, List.foldr_cons]
    omega

/-! ## One after another -/

namespace Sequential

variable {C : Cursor W σ α} {S : Supply W π σ} {R : C.Reading} {elements : π → List α}

/-- There are plans only behind a current sub-cursor. -/
structure Valid (R : C.Reading) (s : Sequential π σ) : Prop where
  current : ∀ c ∈ s.current, R.Valid c
  pending : s.current = none → s.pending = []

def left (R : C.Reading) (elements : π → List α) (s : Sequential π σ) : List α :=
  s.current.elim [] R.left ++ s.pending.flatMap elements

theorem valid_start (hS : S.Makes R elements) (plans : List π) (w : W) :
    Valid R (start S plans w).1 := by
  cases plans with
  | nil => exact ⟨by simp [start], fun _ => rfl⟩
  | cons p ps => exact ⟨by simpa [start] using hS.valid p w, by simp [start]⟩

theorem left_start (hS : S.Makes R elements) (plans : List π) (w : W) :
    left R elements (start S plans w).1 = plans.flatMap elements := by
  cases plans with
  | nil => rfl
  | cons p ps => simp [start, left, hS.left p w]

/-- What advancing comes to: the same elements are left, and if there are any the next one is in the
current sub-cursor. -/
structure Advanced (R : C.Reading) (elements : π → List α) (xs : List α)
    (r : Bool × Sequential π σ × W) : Prop where
  valid : Valid R r.2.1
  left : left R elements r.2.1 = xs
  more : r.1 = xs.head?.isSome
  current : r.1 = true → ∃ c ∈ r.2.1.current, R.left c ≠ []

theorem advanced_of_cons {c : σ} (hc : R.Valid c) {x : α} {xs : List α} (hx : R.left c = x :: xs)
    (pending : List π) (retired : Option σ) (last : LastFrom) (w : W) :
    Advanced R elements (R.left c ++ pending.flatMap elements)
      (advanceFrom C S pending c retired last w) := by
  have hm : (C.hasNext c w).1 = true := by simp [R.hasNext_eq w hc, hx]
  have hl := R.hasNext_left w hc
  rw [advanceFrom_of_more hm]
  exact ⟨⟨by simpa using R.hasNext_valid w hc, by simp⟩, by simp [left, hl], by simp [hx],
    fun _ => ⟨_, rfl, by simp [hl, hx]⟩⟩

theorem advanceFrom_advanced (hS : S.Makes R elements) (pending : List π) {c : σ}
    (hc : R.Valid c) (retired : Option σ) (last : LastFrom) (w : W) :
    Advanced R elements (R.left c ++ pending.flatMap elements)
      (advanceFrom C S pending c retired last w) := by
  -- a sub-cursor without elements adds nothing, and the next one is made from the first plan
  induction pending generalizing c retired last w with
  | nil =>
    cases hx : R.left c with
    | nil =>
      have hm : (C.hasNext c w).1 = false := by simp [R.hasNext_eq w hc, hx]
      rw [advanceFrom_nil hm]
      exact ⟨⟨by simp, by simp⟩, by simp [left], by simp, by simp⟩
    | cons x xs => exact hx ▸ advanced_of_cons hc hx [] retired last w
  | cons p ps ih =>
    cases hx : R.left c with
    | nil =>
      have hm : (C.hasNext c w).1 = false := by simp [R.hasNext_eq w hc, hx]
      rw [advanceFrom_cons hm]
      simpa [hS.left] using ih (hS.valid p _) _ _ _
    | cons x xs => exact hx ▸ advanced_of_cons hc hx (p :: ps) retired last w

theorem advance_advanced (hS : S.Makes R elements) {s : Sequential π σ} (hs : Valid R s) (w : W) :
    Advanced R elements (left R elements s) (advance C S s w) := by
  obtain ⟨pending, current, retired, last⟩ := s
  cases current with
  | none =>
    have hp : pending = [] := hs.pending rfl
    subst hp
    exact ⟨hs, rfl, rfl, by simp [advance]⟩
  | some c => exact advanceFrom_advanced hS pending (hs.current c rfl) retired last w

/-- A call of `next` finds the end, or it takes an element out of the sub-cursor advanced to. -/
theorem next_cases (hS : S.Makes R elements) {s : Sequential π σ} (hs : Valid R s) (w : W) :
    ((advance C S s w).1 = false ∧ next C S s w = (none, (advance C S s w).2)) ∨
    ∃ c x, (advance C S s w).1 = true ∧ (advance C S s w).2.1.current = some c ∧
      (C.next c (advance C S s w).2.2).1 = some x ∧
      next C S s w = (some x,
        ⟨(advance C S s w).2.1.pending, some (C.next c (advance C S s w).2.2).2.1, none, .current⟩,
        (C.next c (advance C S s w).2.2).2.2) := by
  have h := advance_advanced hS hs w
  unfold next
  generalize advance C S s w = r at h
  obtain ⟨more, ⟨pending, current, retired, last⟩, w'⟩ := r
  cases more with
  | false => exact Or.inl ⟨rfl, rfl⟩
  | true =>
    obtain ⟨c, hcur, hne⟩ := h.current rfl
    cases hcur
    obtain ⟨x, xs, hx⟩ := List.exists_cons_of_ne_nil hne
    have hn := R.next_eq w' (h.valid.current c rfl)
    rw [hx, List.head?_cons] at hn
    exact Or.inr ⟨c, x, rfl, rfl, hn, by simp only [hn]⟩

theorem next_reading (hS : S.Makes R elements) {s : Sequential π σ} (hs : Valid R s) (w : W) :
    (next C S s w).1 = (left R elements s).head? ∧ Valid R (next C S s w).2.1 ∧
      left R elements (next C S s w).2.1 = (left R elements s).tail := by
  obtain ⟨hv, hl, hm, -⟩ := advance_advanced hS hs w
  rcases next_cases hS hs w with ⟨hend, hn⟩ | ⟨c, x, -, hc, hx, hn⟩
  · have hnil : left R elements s = [] := by simpa [hend] using hm.symm
    rw [hn]
    exact ⟨by simp [hnil], hv, by simp [hl, hnil]⟩
  · generalize (advance C S s w).2.1 = t at hv hl hc hn
    generalize (advance C S s w).2.2 = w' at hx hn
    have hcv := hv.current c hc
    have hhead := R.next_eq w' hcv
    rw [hx] at hhead
    obtain ⟨xs, hxs⟩ := List.head?_eq_some_iff.mp hhead.symm
    have hleft : left R elements s = x :: (xs ++ t.pending.flatMap elements) := by
      rw [← hl, left, hc, Option.elim_some, hxs, List.cons_append]
    rw [hn, hleft]
    refine ⟨rfl, ⟨by simpa using R.next_valid w' hcv, by simp⟩, ?_⟩
    simp [left, R.next_left w' hcv, hxs]

theorem remove_reading {s : Sequential π σ} (hs : Valid R s) (w : W) :
    Valid R (remove C s w).2.1 ∧
      left R elements (remove C s w).2.1 = left R elements s := by
  obtain ⟨pending, current, retired, last⟩ := s
  cases last with
  | nothing => exact ⟨hs, rfl⟩
  | current =>
    cases current with
    | none => exact ⟨⟨by simp [remove], hs.pending⟩, rfl⟩
    | some c =>
      have hc := hs.current c rfl
      exact ⟨⟨by simpa [remove] using R.remove_valid w hc, by simp [remove]⟩,
        by simp [remove, left, R.remove_left w hc]⟩
  | retired => cases retired <;> exact ⟨⟨hs.current, hs.pending⟩, rfl⟩

theorem length_left_le (hS : S.Makes R elements) {s : Sequential π σ} (hs : Valid R s) :
    (left R elements s).length ≤ (cursor C S).bound s := by
  obtain ⟨pending, current, retired, last⟩ := s
  have hp := hS.length_flatMap_le pending
  cases current with
  | none => simpa [left, cursor] using hp
  | some c =>
    have := R.length_le (hs.current c rfl)
    simp only [left, cursor, Option.elim_some, List.length_append, Option.map_some,
      Option.getD_some]
    omega

def reading (hS : S.Makes R elements) : (cursor C S).Reading where
  Valid := Valid R
  left := left R elements
  next w h := next_reading hS h w
  hasNext w h :=
    have ha := advance_advanced hS h w
    ⟨ha.more, ha.valid, ha.left⟩
  remove w h := remove_reading h w
  length_le h := length_left_le hS h

end Sequential

/-! ## Filtered -/

namespace Filtered

variable {C : Cursor W σ α} {R : C.Reading} {ask : α → W → Bool × W} {accepts : α → Bool}

/-- Nothing looked up means that the inner cursor has been read to its end. -/
structure Valid (R : C.Reading) (f : Filtered σ α) : Prop where
  inner : R.Valid f.inner
  lookahead : f.lookahead = none → R.left f.inner = []

def left (R : C.Reading) (accepts : α → Bool) (f : Filtered σ α) : List α :=
  f.lookahead.toList ++ (R.left f.inner).filter accepts

theorem find_reading (ha : ∀ x w, (ask x w).1 = accepts x) (bound : Nat) {s : σ} (w : W)
    (hs : R.Valid s) (hb : (R.left s).length < bound) :
    Valid R ⟨(find C ask bound s w).2.1, (find C ask bound s w).1⟩ ∧
      left R accepts ⟨(find C ask bound s w).2.1, (find C ask bound s w).1⟩ =
        (R.left s).filter accepts := by
  induction bound generalizing s w with
  | zero => omega
  | succ bound ih =>
    have hn := R.next_eq w hs
    have hv := R.next_valid w hs
    have hl := R.next_left w hs
    unfold find
    generalize C.next s w = r at hn hv hl
    obtain ⟨x, s', w'⟩ := r
    simp only at hn hv hl
    cases hx : R.left s with
    | nil =>
      simp only [hx, List.head?_nil] at hn
      subst hn
      simp only [hx, List.tail_nil] at hl
      exact ⟨⟨hv, fun _ => hl⟩, by simp [left, hl]⟩
    | cons y ys =>
      simp only [hx, List.head?_cons] at hn
      subst hn
      simp only [hx, List.tail_cons] at hl
      by_cases hy : accepts y
      · simp only [ha, hy, if_true]
        exact ⟨⟨hv, by simp⟩, by simp [left, hl, hy]⟩
      · -- an element is passed over, so the bound still exceeds what is left
        simp only [ha, hy]
        have h := ih (ask y w').2 hv (by simp [hx] at hb; simpa [hl] using hb)
        simpa [hl, hy] using h

theorem refill_reading (ha : ∀ x w, (ask x w).1 = accepts x) {s : σ} (w : W) (hs : R.Valid s) :
    Valid R (refill C ask s w).1 ∧
      left R accepts (refill C ask s w).1 = (R.left s).filter accepts :=
  find_reading ha _ w hs (Nat.lt_succ_of_le (R.length_le hs))

theorem next_reading (ha : ∀ x w, (ask x w).1 = accepts x) {f : Filtered σ α} (hf : Valid R f)
    (w : W) :
    (next C ask f w).1 = (left R accepts f).head? ∧ Valid R (next C ask f w).2.1 ∧
      left R accepts (next C ask f w).2.1 = (left R accepts f).tail := by
  obtain ⟨inner, lookahead⟩ := f
  cases lookahead with
  | none =>
    have hl : R.left inner = [] := hf.lookahead rfl
    exact ⟨by simp [next, left, hl], hf, by simp [next, left, hl]⟩
  | some x =>
    have h := refill_reading ha w hf.inner
    exact ⟨rfl, h.1, h.2⟩

theorem length_left_le {f : Filtered σ α} (hf : Valid R f) :
    (left R accepts f).length ≤ (cursor C ask).bound f := by
  have h := R.length_le hf.inner
  have hle := List.length_filter_le accepts (R.left f.inner)
  simp only [left, cursor, List.length_append]
  omega

theorem hasNext_reading {f : Filtered σ α} (hf : Valid R f) :
    f.lookahead.isSome = (left R accepts f).head?.isSome := by
  obtain ⟨inner, lookahead⟩ := f
  cases lookahead with
  | none => simp [left, hf.lookahead rfl]
  | some x => rfl

def reading (R : C.Reading) (ha : ∀ x w, (ask x w).1 = accepts x) : (cursor C ask).Reading where
  Valid := Valid R
  left := left R accepts
  next w h := next_reading ha h w
  hasNext _ h := ⟨hasNext_reading h, h, rfl⟩
  remove _ h := ⟨h, rfl⟩
  length_le h := length_left_le h

end Filtered

end ClassListing
