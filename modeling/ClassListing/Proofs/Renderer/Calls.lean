import ClassListing.Proofs.Cursor.Combination
import ClassListing.Renderer

/-!
# What a rendering calls on

The cursors under a rendering do nothing but read, so all that a rendering enters into its record are its own
calls. They are found from the list of members alone: the filter is asked up to the next member that
it accepts before the one accepted last is rendered.
-/

namespace ClassListing

set_option autoImplicit false

variable {W π σ α : Type}

/-! ## Cursors that leave the world alone -/

structure Cursor.Silent (C : Cursor W σ α) : Prop where
  next : ∀ s w, (C.next s w).2.2 = w
  hasNext : ∀ s w, (C.hasNext s w).2.2 = w

structure Supply.Silent (S : Supply W π σ) : Prop where
  build : ∀ p w, (S.build p w).2 = w
  ended : ∀ w, S.ended w = w

namespace Sequential

variable {C : Cursor W σ α} {S : Supply W π σ}

theorem advanceFrom_world (hC : C.Silent) (hS : S.Silent) (pending : List π) (c : σ)
    (retired : Option σ) (last : LastFrom) (w : W) :
    (advanceFrom C S pending c retired last w).2.2 = w := by
  induction pending generalizing c retired last w with
  | nil =>
    cases hm : (C.hasNext c w).1 with
    | true => rw [advanceFrom_of_more hm, hC.hasNext]
    | false => rw [advanceFrom_nil hm, hS.ended, hC.hasNext]
  | cons p ps ih =>
    cases hm : (C.hasNext c w).1 with
    | true => rw [advanceFrom_of_more hm, hC.hasNext]
    | false => rw [advanceFrom_cons hm, ih, hS.build, hC.hasNext]

theorem advance_world (hC : C.Silent) (hS : S.Silent) (s : Sequential π σ) (w : W) :
    (advance C S s w).2.2 = w := by
  unfold advance
  split
  · rfl
  · exact advanceFrom_world hC hS _ _ _ _ w

theorem silent (hC : C.Silent) (hS : S.Silent) : (cursor C S).Silent where
  next s w := by
    have ha := advance_world hC hS s w
    simp only [cursor, next]
    generalize advance C S s w = r at ha
    obtain ⟨more, ⟨pending, current, retired, last⟩, w'⟩ := r
    subst ha
    cases more with
    | false => rfl
    | true =>
      cases current with
      | none => rfl
      | some c =>
        dsimp only
        split <;> exact hC.next c w'
  hasNext := advance_world hC hS

end Sequential

/-! ## Looking for an accepted element -/

/-- The elements asked about in looking for one that is accepted: those up to the first, or all. -/
def sought (accepts : α → Bool) (xs : List α) : List α :=
  xs.takeWhile (fun x => !accepts x) ++ (xs.find? accepts).toList

def unsought (accepts : α → Bool) (xs : List α) : List α :=
  (xs.dropWhile fun x => !accepts x).tail

section
variable {accepts : α → Bool} {x : α}

theorem sought_cons_of_accepts (h : accepts x = true) (xs : List α) :
    sought accepts (x :: xs) = [x] ∧ unsought accepts (x :: xs) = xs := by
  simp [sought, unsought, h]

theorem sought_cons_of_rejects (h : accepts x = false) (xs : List α) :
    sought accepts (x :: xs) = x :: sought accepts xs ∧
      unsought accepts (x :: xs) = unsought accepts xs := by
  simp [sought, unsought, h]

theorem length_unsought_le (accepts : α → Bool) (xs : List α) :
    (unsought accepts xs).length ≤ xs.length - 1 := by
  have h := (List.dropWhile_sublist (l := xs) fun x => !accepts x).length_le
  simp only [unsought, List.length_tail]
  omega

theorem sought_of_find?_none {xs : List α} (h : xs.find? accepts = none) :
    sought accepts xs = xs ∧ xs.filter accepts = [] := by
  induction xs with
  | nil => exact ⟨rfl, rfl⟩
  | cons y ys ih =>
    have hy : accepts y = false := by simpa using List.find?_eq_none.mp h y List.mem_cons_self
    rw [List.find?_cons_of_neg (by simp [hy])] at h
    rw [(sought_cons_of_rejects hy ys).1, List.filter_cons_of_neg (by simp [hy]), (ih h).1]
    exact ⟨rfl, (ih h).2⟩

theorem filter_of_find?_some {xs : List α} (h : xs.find? accepts = some x) :
    xs.filter accepts = x :: (unsought accepts xs).filter accepts := by
  induction xs with
  | nil => cases h
  | cons y ys ih =>
    cases hy : accepts y with
    | true =>
      rw [List.find?_cons_of_pos hy] at h
      cases h
      rw [List.filter_cons_of_pos hy, (sought_cons_of_accepts hy ys).2]
    | false =>
      rw [List.find?_cons_of_neg (by simp [hy])] at h
      rw [List.filter_cons_of_neg (by simp [hy]), (sought_cons_of_rejects hy ys).2, ih h]

theorem sought_append_unsought (accepts : α → Bool) (xs : List α) :
    sought accepts xs ++ unsought accepts xs = xs := by
  induction xs with
  | nil => rfl
  | cons y ys ih =>
    cases hy : accepts y with
    | true => simp [sought_cons_of_accepts hy]
    | false => simp [sought_cons_of_rejects hy, ih]

theorem sought_append_of_none {before : List α} (h : before.find? accepts = none)
    (hx : accepts x = true) (after : List α) :
    (before ++ x :: after).find? accepts = some x ∧
      sought accepts (before ++ x :: after) = before ++ [x] ∧
      unsought accepts (before ++ x :: after) = after := by
  induction before with
  | nil => exact ⟨List.find?_cons_of_pos hx, sought_cons_of_accepts hx after⟩
  | cons y ys ih =>
    have hy : accepts y = false := by simpa using List.find?_eq_none.mp h y List.mem_cons_self
    rw [List.find?_cons_of_neg (by simp [hy])] at h
    simpa [hy, sought_cons_of_rejects hy] using ih h

theorem sought_append_of_some {before : List α} (h : before.find? accepts = some x)
    (after : List α) :
    (before ++ after).find? accepts = some x ∧
      sought accepts (before ++ after) = sought accepts before ∧
      unsought accepts (before ++ after) = unsought accepts before ++ after := by
  induction before with
  | nil => cases h
  | cons y ys ih =>
    cases hy : accepts y with
    | true =>
      rw [List.find?_cons_of_pos hy] at h
      simpa [hy, sought_cons_of_accepts hy] using h
    | false =>
      rw [List.find?_cons_of_neg (by simp [hy])] at h
      simpa [hy, sought_cons_of_rejects hy] using ih h

end

namespace Filtered

variable {C : Cursor W σ α}

/-- Looking for an accepted element asks about the elements that are sought and passes over them. -/
theorem find_sought (R : C.Reading) (hC : C.Silent) (accepts : α → Bool) (note : α → W → W)
    (bound : Nat) {s : σ} (w : W) (hs : R.Valid s) (hb : (R.left s).length < bound) :
    let r := find C (fun x w => (accepts x, note x w)) bound s w
    r.1 = (R.left s).find? accepts ∧ R.Valid r.2.1 ∧
      R.left r.2.1 = unsought accepts (R.left s) ∧
      r.2.2 = (sought accepts (R.left s)).foldl (fun w x => note x w) w := by
  induction bound generalizing s w with
  | zero => omega
  | succ bound ih =>
    have hn := R.next_eq w hs
    have hv := R.next_valid w hs
    have hl := R.next_left w hs
    have hw := hC.next s w
    unfold find
    generalize C.next s w = r at hn hv hl hw
    obtain ⟨x, s', w'⟩ := r
    simp only at hn hv hl hw
    subst hw
    cases hx : R.left s with
    | nil =>
      simp only [hx, List.head?_nil, List.tail_nil] at hn hl
      subst hn
      exact ⟨rfl, hv, hl, rfl⟩
    | cons y ys =>
      simp only [hx, List.head?_cons, List.tail_cons] at hn hl
      subst hn
      cases hy : accepts y with
      | true => simp [hy, hv, hl, sought_cons_of_accepts hy]
      | false =>
        have hb' : (R.left s').length < bound := by
          rw [hl]
          simpa [hx] using hb
        have h := ih (note y w') hv hb'
        rw [hl] at h
        simpa [hy, sought_cons_of_rejects hy] using h

end Filtered

/-! ## The calls of a rendering -/

namespace Renderer

variable {r : Renderer}

theorem memberCursor_silent (W : Type) : (memberCursor W).Silent :=
  Sequential.silent ⟨fun _ _ => rfl, fun _ _ => rfl⟩ ⟨fun _ _ => rfl, fun _ => rfl⟩

theorem lists_makes (W : Type) :
    (lists W).Makes (Peeking.reading W Member) (fun members => members) :=
  ⟨fun members _ => Peeking.valid_ofList members, fun _ _ => rfl, fun _ => Nat.le_succ _⟩

def memberReading (W : Type) : (memberCursor W).Reading := Sequential.reading (lists_makes W)

/-- The calls from a member on that is to be rendered next, when the filter has not been asked about
the members in `xs`. -/
def callsFrom (r : Renderer) : Member → List Member → List Call
  | m, [] => [.member m]
  | m, x :: xs =>
    .accept x ::
      if r.filter.accept x then
        .member m ::
          match r.renderMember m with
          | .error _ => []
          | .ok _ => r.callsFrom x xs
      else r.callsFrom m xs

theorem callsFrom_eq (m : Member) (xs : List Member) :
    r.callsFrom m xs = (sought r.filter.accept xs).map .accept ++ .member m ::
      match r.renderMember m, xs.find? r.filter.accept with
      | .ok _, some x => r.callsFrom x (unsought r.filter.accept xs)
      | _, _ => [] := by
  induction xs with
  | nil => cases h : r.renderMember m <;> simp [callsFrom, sought]
  | cons y ys ih =>
    cases hy : r.filter.accept y with
    | true =>
      cases h : r.renderMember m <;> simp [callsFrom, hy, h, sought_cons_of_accepts hy]
    | false => simp [callsFrom, hy, ih, sought_cons_of_rejects hy]

theorem renderMembers_none (note : Call → W → W) (bound : Nat) (s : Members) (w : W) :
    r.renderMembers note bound ⟨s, none⟩ w = (.ok [], w) := by
  cases bound <;> rfl

theorem refill_sought (note : Call → W → W) {s : Members} (hs : (memberReading W).Valid s) (w : W) :
    ∃ t, Filtered.refill (memberCursor W) (r.ask note) s w =
        (⟨t, ((memberReading W).left s).find? r.filter.accept⟩,
          ((sought r.filter.accept ((memberReading W).left s)).map Call.accept).foldl
            (fun w call => note call w) w) ∧
      (memberReading W).Valid t ∧
      (memberReading W).left t = unsought r.filter.accept ((memberReading W).left s) := by
  have hb := Nat.lt_succ_of_le ((memberReading W).length_le hs)
  obtain ⟨hx, hv, hl, hw⟩ := Filtered.find_sought (memberReading W) (memberCursor_silent W)
    r.filter.accept (fun m => note (.accept m)) _ w hs hb
  refine ⟨_, ?_, hv, hl⟩
  rw [List.foldl_map, ← hx, ← hw]
  rfl

theorem renderMembers_eq (note : Call → W → W) (bound : Nat) {s : Members} (m : Member) (w : W)
    (hs : (memberReading W).Valid s) (hb : ((memberReading W).left s).length < bound) :
    r.renderMembers note bound ⟨s, some m⟩ w =
      ((m :: ((memberReading W).left s).filter r.filter.accept).mapM r.renderMember,
        (r.callsFrom m ((memberReading W).left s)).foldl (fun w call => note call w) w) := by
  induction bound generalizing s m w with
  | zero => omega
  | succ bound ih =>
    obtain ⟨t, ht, hv, hl⟩ := refill_sought (r := r) note hs w
    have hn : (r.acceptedCursor note).next ⟨s, some m⟩ w =
        (some m, Filtered.refill (memberCursor W) (r.ask note) s w) := rfl
    rw [renderMembers, hn, ht, callsFrom_eq, List.foldl_append, List.mapM_cons]
    simp only
    cases hm : r.renderMember m with
    | error e => rfl
    | ok text =>
      cases hx : ((memberReading W).left s).find? r.filter.accept with
      | none =>
        rw [renderMembers_none, (sought_of_find?_none hx).2]
        rfl
      | some x =>
        have hlt : ((memberReading W).left t).length < bound := by
          have hle := length_unsought_le r.filter.accept ((memberReading W).left s)
          have hne : (memberReading W).left s ≠ [] := by rintro h; simp [h] at hx
          have hpos := List.length_pos_iff.mpr hne
          rw [hl]
          omega
        simp only [ih x _ hv hlt, hl, filter_of_find?_some hx]
        cases (x :: (unsought r.filter.accept ((memberReading W).left s)).filter
          r.filter.accept).mapM r.renderMember <;> rfl

end Renderer

end ClassListing
