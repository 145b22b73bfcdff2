import ClassListing.Cursor

/-!
Cursors one after another. The sub-cursors are made from plans only when the one before is found
exhausted. A sub-cursor that is left behind is kept as long as it yielded the last element, for
that is where `remove` has to go.
-/

namespace ClassListing

/-- How sub-cursors with states `σ` are made from plans `π`. -/
structure Supply (W π σ : Type) where
  build : π → W → σ × W
  /-- What asking for another sub-cursor does when there is no plan left. -/
  ended : W → W
  bound : π → Nat

inductive LastFrom where
  | nothing
  | current
  | retired
  deriving DecidableEq, Repr

structure Sequential (π σ : Type) where
  pending : List π
  current : Option σ
  retired : Option σ
  last : LastFrom

namespace Sequential

variable {W π σ α : Type}

def start (S : Supply W π σ) (plans : List π) (w : W) : Sequential π σ × W :=
  match plans with
  | [] => (⟨[], none, none, .nothing⟩, S.ended w)
  | p :: ps =>
    let (c, w) := S.build p w
    (⟨ps, some c, none, .nothing⟩, w)

def advanceFrom (C : Cursor W σ α) (S : Supply W π σ) (pending : List π) (current : σ)
    (retired : Option σ) (last : LastFrom) (w : W) : Bool × Sequential π σ × W :=
  let (more, current, w) := C.hasNext current w
  if more then (true, ⟨pending, some current, retired, last⟩, w)
  else
    let (retired, last) :=
      if last = .current then (some current, LastFrom.retired) else (retired, last)
    match pending with
    | [] => (false, ⟨[], none, retired, last⟩, S.ended w)
    | p :: ps =>
      let (c, w) := S.build p w
      advanceFrom C S ps c retired last w

/-- Goes to the first sub-cursor with an element; the answer is whether there is one. -/
def advance (C : Cursor W σ α) (S : Supply W π σ) (s : Sequential π σ) (w : W) :
    Bool × Sequential π σ × W :=
  match s.current with
  | none => (false, s, w)
  | some c => advanceFrom C S s.pending c s.retired s.last w

def next (C : Cursor W σ α) (S : Supply W π σ) (s : Sequential π σ) (w : W) :
    Option α × Sequential π σ × W :=
  let (more, s, w) := advance C S s w
  match more, s.current with
  | true, some c =>
    let (x, c, w) := C.next c w
    match x with
    | some x => (some x, { s with current := some c, retired := none, last := .current }, w)
    | none => (none, { s with current := some c }, w)
  | _, _ => (none, s, w)

def remove (C : Cursor W σ α) (s : Sequential π σ) (w : W) :
    Except RemoveError Unit × Sequential π σ × W :=
  match s.last with
  | .nothing => (.error .nothingToRemove, s, w)
  | .current =>
    match s.current with
    | some c =>
      let (r, c, w) := C.remove c w
      (r, { s with current := some c, last := .nothing }, w)
    | none => (.error .nothingToRemove, { s with last := .nothing }, w)
  | .retired =>
    match s.retired with
    | some c =>
      let (r, _, w) := C.remove c w
      (r, { s with retired := none, last := .nothing }, w)
    | none => (.error .nothingToRemove, { s with last := .nothing }, w)

def cursor (C : Cursor W σ α) (S : Supply W π σ) : Cursor W (Sequential π σ) α where
  next := next C S
  hasNext := advance C S
  remove := remove C
  bound s := (s.current.map C.bound).getD 0 + s.pending.foldr (fun p n => S.bound p + n) 0

/-! ## Advancing, case by case -/

def kept (current : σ) (retired : Option σ) (last : LastFrom) : Option σ × LastFrom :=
  if last = .current then (some current, .retired) else (retired, last)

section
variable {C : Cursor W σ α} {S : Supply W π σ} {pending : List π} {c : σ} {retired : Option σ}
  {last : LastFrom} {w : W}

theorem advanceFrom_of_more (h : (C.hasNext c w).1 = true) :
    advanceFrom C S pending c retired last w =
      (true, ⟨pending, some (C.hasNext c w).2.1, retired, last⟩, (C.hasNext c w).2.2) := by
  unfold advanceFrom
  simp [h]

theorem advanceFrom_nil (h : (C.hasNext c w).1 = false) :
    advanceFrom C S [] c retired last w =
      (false, ⟨[], none, (kept (C.hasNext c w).2.1 retired last).1,
        (kept (C.hasNext c w).2.1 retired last).2⟩, S.ended (C.hasNext c w).2.2) := by
  simp [advanceFrom, h, kept]

theorem advanceFrom_cons {p : π} {ps : List π} (h : (C.hasNext c w).1 = false) :
    advanceFrom C S (p :: ps) c retired last w =
      advanceFrom C S ps (S.build p (C.hasNext c w).2.2).1
        (kept (C.hasNext c w).2.1 retired last).1 (kept (C.hasNext c w).2.1 retired last).2
        (S.build p (C.hasNext c w).2.2).2 := by
  rw [advanceFrom]
  simp [h, kept]

end

/-! ## Every pass ends -/

theorem advanceFrom_pending (C : Cursor W σ α) (S : Supply W π σ) (pending : List π) (c : σ)
    (retired : Option σ) (last : LastFrom) (w : W) :
    (advanceFrom C S pending c retired last w).2.1.pending.length < pending.length ∨
      (advanceFrom C S pending c retired last w).2.1.pending = pending ∧
        ((advanceFrom C S pending c retired last w).1 = true →
          (advanceFrom C S pending c retired last w).2.1.current = some (C.hasNext c w).2.1) := by
  induction pending generalizing c retired last w with
  | nil =>
    cases hm : (C.hasNext c w).1 with
    | true => simp [advanceFrom_of_more hm]
    | false => simp [advanceFrom_nil hm]
  | cons p ps ih =>
    cases hm : (C.hasNext c w).1 with
    | true => simp [advanceFrom_of_more hm]
    | false =>
      left
      rw [advanceFrom_cons hm]
      rcases ih (S.build p (C.hasNext c w).2.2).1 (kept (C.hasNext c w).2.1 retired last).1
        (kept (C.hasNext c w).2.1 retired last).2 (S.build p (C.hasNext c w).2.2).2 with h | ⟨h, -⟩
      · exact Nat.lt_succ_of_lt h
      · rw [h]
        exact Nat.lt_succ_self _

def supplyLeft (left : σ → Nat) (s : Sequential π σ) : Nat × Nat :=
  (s.pending.length, s.current.elim 0 left)

/-- If yielding uses up a sub-cursor and looking for more does not fill it, yielding uses up the
sequence. -/
theorem next_supplyLeft {C : Cursor W σ α} {S : Supply W π σ} {left : σ → Nat}
    (hasNext_left : ∀ c w, left (C.hasNext c w).2.1 ≤ left c)
    (next_left : ∀ c w x, (C.next c w).1 = some x → left (C.next c w).2.1 < left c)
    {s t : Sequential π σ} {w v : W} {x : α} (h : next C S s w = (some x, t, v)) :
    Prod.Lex (· < ·) (· < ·) (supplyLeft left t) (supplyLeft left s) := by
  obtain ⟨pending, current, retired, last⟩ := s
  rcases current with _ | c
  · simp [next, advance] at h
  · have hp := advanceFrom_pending C S pending c retired last w
    simp only [next, advance] at h
    generalize advanceFrom C S pending c retired last w = r at h hp
    obtain ⟨more, ⟨pending', current', retired', last'⟩, w'⟩ := r
    rcases more with _ | _
    · simp at h
    · rcases current' with _ | c'
      · simp at h
      · simp only at h hp
        rcases hx : (C.next c' w').1 with _ | y
        · simp [hx] at h
        · simp only [hx, Prod.mk.injEq] at h
          obtain ⟨-, rfl, -⟩ := h
          rcases hp with hp | ⟨rfl, hc⟩
          · exact Prod.Lex.left _ _ hp
          · have hc' : c' = (C.hasNext c w).2.1 := by simpa using hc
            refine Prod.Lex.right _ ?_
            have h₁ := next_left c' w' y hx
            have h₂ := hasNext_left c w
            rw [← hc'] at h₂
            exact Nat.lt_of_lt_of_le h₁ h₂

end Sequential

end ClassListing
