import ClassListing.Proofs.Cursor.Course
import ClassListing.Proofs.Cursor.Labelled
import ClassListing.Proofs.Cursor.Marking

/-!
# Removing from a sequence

A labelled sequence follows its course: after any calls it is going to yield the same elements, a removal is
about the same one, and the editable lists hold what survives. The sequence that the labels come from
works alike, so removing hits the element yielded last, or nothing.
-/

namespace ClassListing.CursorExpression

set_option autoImplicit false

open Holdings

variable {α : Type} {n : Nat}

theorem Leaf.lists_map {β : Type} (f : β → α) (l : Leaf β) :
    (l.map f).lists = l.lists.map (List.map f) := by
  cases l <;> rfl

theorem Plan.lists_image {β : Type} (f : β → α) (n : Nat) {p : Plan β n} {q : Plan α n}
    (h : Plan.Image f n p q) : Plan.lists n q = (Plan.lists n p).map (List.map f) := by
  induction n with
  | zero =>
    cases h
    exact Leaf.lists_map f p
  | succ n ih =>
    cases h with
    | leaf l => exact Leaf.lists_map f l
    | filtered hpq _ => exact ih hpq
    | sequential hps =>
      simp only [Plan.lists, Layer.lists]
      induction hps with
      | nil => rfl
      | cons hpq _ ihs => rw [List.flatMap_cons, List.flatMap_cons, List.map_append, ih hpq, ihs]

/-! ## A sequence that nothing has been yielded from -/

namespace Sequence

variable {π σ : Type} {C : Cursor (Ledger α) σ α} {S : Supply (Ledger α) π σ}

theorem last_start {W : Type} (S : Supply W π σ) (plans : List π) (w : W) :
    (Sequential.start S plans w).1.last = .nothing := by
  cases plans <;> rfl

theorem last_advanceFrom (pending : List π) (c : σ) (retired : Option σ) (w : Ledger α) :
    (Sequential.advanceFrom C S pending c retired .nothing w).2.1.last = .nothing := by
  induction pending generalizing c retired w with
  | nil =>
    cases hm : (C.hasNext c w).1 with
    | true => rw [Sequential.advanceFrom_of_more hm]
    | false =>
      rw [Sequential.advanceFrom_nil hm]
      rfl
  | cons p ps ih =>
    cases hm : (C.hasNext c w).1 with
    | true => rw [Sequential.advanceFrom_of_more hm]
    | false =>
      rw [Sequential.advanceFrom_cons hm]
      exact ih _ _ _

theorem last_advance {s : Sequential π σ} (hl : s.last = .nothing) (w : Ledger α) :
    (s.advance C S w).2.1.last = .nothing := by
  obtain ⟨pending, current, retired, last⟩ := s
  cases hl
  cases current with
  | none => rfl
  | some c => exact last_advanceFrom pending c retired w

theorem last_next {s : Sequential π σ} (hl : s.last = .nothing) {w : Ledger α}
    (hn : (s.next C S w).1 = none) : (s.next C S w).2.1.last = .nothing := by
  have ha := last_advance (C := C) (S := S) hl w
  revert hn
  unfold Sequential.next
  generalize s.advance C S w = r at ha
  obtain ⟨more, ⟨pending, current, retired, last⟩, w'⟩ := r
  cases ha
  cases more with
  | false => exact fun _ => rfl
  | true =>
    cases current with
    | none => exact fun _ => rfl
    | some c =>
      rcases hr : C.next c w' with ⟨x, c', w''⟩
      simp only [hr]
      cases x <;> simp

theorem last_remove (s : Sequential π σ) (w : Ledger α) :
    (s.remove C w).2.1.last = .nothing := by
  obtain ⟨pending, current, retired, last⟩ := s
  cases last with
  | nothing => rfl
  | current => cases current <;> rfl
  | retired => cases retired <;> rfl

theorem remove_nothing {s : Sequential π σ} (hl : s.last = .nothing) (w : Ledger α) :
    s.remove C w = (.error .nothingToRemove, s, w) := by
  simp only [Sequential.remove, hl]

end Sequence

/-! ## Following the course -/

def removals (α : Type) (n : Nat) : View (State (Occurrence α) n) (Occurrence α) :=
  view Occurrence.removable n

theorem removals_tracks (α : Type) (n : Nat) :
    (removals α n).Tracks (cursor (Occurrence α) n) (reading (Occurrence α) n)
      Occurrence.removable :=
  (view_tracks_brings _ n).1

/-- A labelled sequence at work agrees with its course. -/
structure Follows (p : Plan α (n + 1)) (s : State (Occurrence α) (n + 1))
    (w : Ledger (Occurrence α)) (c : Course α) : Prop where
  sound : (removals α (n + 1)).Sound s
  fits : Fits ((removals α (n + 1)).held s) w.lists
  marked : (removals α (n + 1)).Marked s
  upcoming : (reading (Occurrence α) (n + 1)).left s = c.upcoming
  root : ∃ q, s = .sequential q ∧ (c.last = none → q.last = .nothing)
  last : ∀ o ∈ c.last, (removals α (n + 1)).Aims s o
  unmade : (removals α (n + 1)).unmade s = (Plan.occurrenceLists (n + 1) p).drop w.lists.length
  survivors : w.lists ++ (removals α (n + 1)).unmade s = Plan.survivors (n + 1) p c.removed

namespace Follows

variable {p : Plan α (n + 1)} {s s' : State (Occurrence α) (n + 1)}
  {w w' : Ledger (Occurrence α)} {c : Course α}

theorem start (of : List (Plan α n)) :
    let p : Plan α (n + 1) := .sequential of
    let l := CursorExpression.start (Plan.label (n + 1) [] p) .empty
    Follows p l.1 l.2 (Course.start p) := by
  intro p l
  have hB := (view_tracks_brings (Occurrence.removable (α := α)) (n + 1)).2
  have hg := hB.grows (Plan.label (n + 1) [] p) .empty
  have hf := hB.fits (Plan.label (n + 1) [] p) .empty
  obtain ⟨⟨made, hl, hu, -⟩, -⟩ := hg
  have hl' : l.2.lists = made := hl
  have hu' : Plan.occurrenceLists (n + 1) p = made ++ (removals α (n + 1)).unmade l.1 := hu
  refine ⟨hB.sound _ _, hf, hB.marked _ _ (Plan.marked_label _ (by simp) p), left_start _ _,
    ⟨_, rfl, fun _ => ?_⟩, by simp [Course.start], ?_, ?_⟩
  · exact Sequence.last_start _ _ _
  · rw [hl', hu', List.drop_left]
  · rw [hl', Course.start, Plan.survivors_nil, hu']

theorem reads (h : Follows p s w c) (hr : (removals α (n + 1)).Reads s w s' w') :
    (removals α (n + 1)).unmade s' = (Plan.occurrenceLists (n + 1) p).drop w'.lists.length ∧
      w'.lists ++ (removals α (n + 1)).unmade s' = Plan.survivors (n + 1) p c.removed := by
  obtain ⟨⟨made, hl, hu, -⟩, -⟩ := hr.grows
  refine ⟨?_, ?_⟩
  · rw [hl, List.length_append, ← List.drop_drop, ← h.unmade, hu, List.drop_left]
  · rw [hl, List.append_assoc, ← hu, h.survivors]

theorem next (h : Follows p s w c) :
    ((cursor _ (n + 1)).next s w).1 = c.next.1 ∧
      Follows p ((cursor _ (n + 1)).next s w).2.1 ((cursor _ (n + 1)).next s w).2.2 c.next.2 := by
  have hT := removals_tracks α (n + 1)
  have hr := hT.next (w := w) h.sound h.fits
  obtain ⟨hu, hsv⟩ := h.reads hr
  have hx := (reading (Occurrence α) (n + 1)).next_eq w (hT.valid h.sound)
  have hl := (reading (Occurrence α) (n + 1)).next_left w (hT.valid h.sound)
  rw [h.upcoming] at hx hl
  have hend := hT.next_end (w := w) h.sound h.fits
  have haims := fun o => hT.next_aims (w := w) (x := o) h.sound h.fits h.marked
  have hm := hr.marked h.marked
  obtain ⟨q, hq, hlast⟩ := h.root
  subst hq
  cases hup : c.upcoming with
  | nil =>
    -- the end is found: what a removal would be about stays
    rw [hup] at hx hl
    have hc : c.next = (none, c) := by simp [Course.next, hup]
    rw [hc]
    refine ⟨hx, hr.sound, hr.grows.fits h.fits, hm, hup ▸ hl, ⟨_, rfl, fun hnone => ?_⟩,
      fun o ho => (hend hx).2 o (h.last o ho), hu, hsv⟩
    exact Sequence.last_next (hlast hnone) hx
  | cons o os =>
    rw [hup] at hx hl
    have hc : c.next = (some o, ⟨os, some o, c.removed⟩) := by simp [Course.next, hup]
    rw [hc]
    refine ⟨hx, hr.sound, hr.grows.fits h.fits, hm, hl, ⟨_, rfl, by simp⟩, ?_, hu, hsv⟩
    rintro o' ⟨⟩
    exact haims _ hx

theorem hasNext (h : Follows p s w c) :
    ((cursor _ (n + 1)).hasNext s w).1 = !c.upcoming.isEmpty ∧
      Follows p ((cursor _ (n + 1)).hasNext s w).2.1 ((cursor _ (n + 1)).hasNext s w).2.2 c := by
  have hT := removals_tracks α (n + 1)
  have hr := hT.hasNext (w := w) h.sound h.fits
  obtain ⟨hu, hsv⟩ := h.reads hr
  have hx := (reading (Occurrence α) (n + 1)).hasNext_eq w (hT.valid h.sound)
  have hl := (reading (Occurrence α) (n + 1)).hasNext_left w (hT.valid h.sound)
  rw [h.upcoming] at hx hl
  have haims := fun o ho => hT.hasNext_aims (w := w) h.sound h.fits (h.last o ho)
  have hm := hr.marked h.marked
  obtain ⟨q, hq, hlast⟩ := h.root
  subst hq
  refine ⟨hx.trans (by cases c.upcoming <;> rfl), hr.sound, hr.grows.fits h.fits, hm, hl,
    ⟨_, rfl, fun hnone => Sequence.last_advance (hlast hnone) w⟩, haims, hu, hsv⟩

theorem remove_none (h : Follows p s w c) (hc : c.last = none) :
    (cursor _ (n + 1)).remove s w = (.error .nothingToRemove, s, w) := by
  obtain ⟨q, rfl, hlast⟩ := h.root
  have hr := Sequence.remove_nothing (C := cursor (Occurrence α) n) (hlast hc) w
  change LayerState.remove (cursor (Occurrence α) n) (.sequential q) w = _
  simp only [LayerState.remove, hr]
  rfl

theorem remove_removable (h : Follows p s w c) {o : Occurrence α} (hc : c.last = some o)
    (ho : o.removable = true) :
    ((cursor _ (n + 1)).remove s w).1 = .ok () ∧
      ∃ before front back after, w.lists = before ++ (front ++ o :: back) :: after ∧
        ((cursor _ (n + 1)).remove s w).2.2.lists = before ++ (front ++ back) :: after := by
  have hT := removals_tracks α (n + 1)
  obtain ⟨hok, he⟩ := (hT.remove (w := w) h.sound h.fits (h.last o hc)).possible ho
  exact ⟨hok, he.exists_eq h.fits⟩

theorem remove_fixed (h : Follows p s w c) {o : Occurrence α} (hc : c.last = some o)
    (ho : o.removable = false) :
    ((cursor _ (n + 1)).remove s w).1 = .error .notSupported ∧
      ((cursor _ (n + 1)).remove s w).2.2.lists = w.lists := by
  have hT := removals_tracks α (n + 1)
  obtain ⟨hno, -, hl⟩ := (hT.remove (w := w) h.sound h.fits (h.last o hc)).impossible ho
  exact ⟨hno, hl⟩

theorem remove (h : Follows p s w c) :
    ((cursor _ (n + 1)).remove s w).1 = c.remove.1 ∧
      Follows p ((cursor _ (n + 1)).remove s w).2.1 ((cursor _ (n + 1)).remove s w).2.2
        c.remove.2 := by
  cases hc : c.last with
  | none =>
    have hr : c.remove = (.error .nothingToRemove, c) := by simp [Course.remove, hc]
    rw [h.remove_none hc, hr]
    exact ⟨rfl, h⟩
  | some o =>
    have hT := removals_tracks α (n + 1)
    have hrm := hT.remove (w := w) h.sound h.fits (h.last o hc)
    have hl := (reading (Occurrence α) (n + 1)).remove_left w (hT.valid h.sound)
    rw [h.upcoming] at hl
    have hm := hrm.marked h.marked
    have hu := hrm.unmade_eq
    have hpos := h.remove_removable hc
    have hfix := h.remove_fixed hc
    obtain ⟨q, hq, -⟩ := h.root
    subst hq
    cases ho : o.removable with
    | true =>
      obtain ⟨hok, before, front, back, after, hw, hw'⟩ := hpos ho
      have hr : c.remove = (.ok (), ⟨c.upcoming, none, o.spot :: c.removed⟩) := by
        simp [Course.remove, hc, ho]
      have hlen : ((cursor _ (n + 1)).remove (.sequential q) w).2.2.lists.length =
          w.lists.length := by simp [hw, hw']
      -- the ledger has lost the occurrence whose spot the course notes
      have hsv := h.survivors
      rw [hw, List.append_assoc, List.cons_append] at hsv
      rw [hr]
      refine ⟨hok, hrm.sound, (hrm.possible ho).2.fits h.fits, hm, hl,
        ⟨_, rfl, fun _ => Sequence.last_remove q w⟩, by simp, ?_, ?_⟩
      · rw [hlen, hu, h.unmade]
      · rw [hw', hu, Plan.survivors_cons_of_eq hsv.symm, List.append_assoc, List.cons_append]
    | false =>
      obtain ⟨hno, hw'⟩ := hfix ho
      have hr : c.remove = (.error .notSupported, ⟨c.upcoming, none, c.removed⟩) := by
        simp [Course.remove, hc, ho]
      have hheld := (hrm.impossible ho).2.1
      rw [hr]
      refine ⟨hno, hrm.sound, hw' ▸ h.fits.sublist hheld, hm, hl,
        ⟨_, rfl, fun _ => Sequence.last_remove q w⟩, by simp, ?_, ?_⟩
      · rw [hw', hu, h.unmade]
      · rw [hw', hu, h.survivors]

theorem perform (h : Follows p s w c) (op : Cursor.Operation) :
    ((cursor _ (n + 1)).perform op s w).1 = ((Course.cursor α).perform op c ()).1 ∧
      Follows p ((cursor _ (n + 1)).perform op s w).2.1 ((cursor _ (n + 1)).perform op s w).2.2
        ((Course.cursor α).perform op c ()).2.1 := by
  cases op with
  | next => exact ⟨congrArg Cursor.Answer.next h.next.1, h.next.2⟩
  | hasNext => exact ⟨congrArg Cursor.Answer.hasNext h.hasNext.1, h.hasNext.2⟩
  | remove => exact ⟨congrArg Cursor.Answer.remove h.remove.1, h.remove.2⟩

theorem run (h : Follows p s w c) (ops : List Cursor.Operation) :
    ((cursor _ (n + 1)).run ops s w).1 = ((Course.cursor α).run ops c ()).1 ∧
      Follows p ((cursor _ (n + 1)).run ops s w).2.1 ((cursor _ (n + 1)).run ops s w).2.2
        ((Course.cursor α).run ops c ()).2.1 := by
  induction ops generalizing s w c with
  | nil => exact ⟨rfl, h⟩
  | cons op ops ih =>
    obtain ⟨ha, hp⟩ := h.perform op
    obtain ⟨has, hr⟩ := ih hp
    simp only [Cursor.run_cons]
    exact ⟨by rw [ha, has], hr⟩

theorem contents (h : Follows p s w c) {v : Ledger α} (hv : w.Image Occurrence.element v) :
    Plan.contents (n + 1) p v =
      (Plan.survivors (n + 1) p c.removed).map (List.map Occurrence.element) := by
  have hp : Plan.lists (n + 1) p = (Plan.occurrenceLists (n + 1) p).map _ :=
    Plan.lists_image Occurrence.element (n + 1) (Plan.image_label (n + 1) [] p)
  rw [Plan.contents, hv.lists, hp, List.length_map, ← List.map_drop, ← List.map_append, ← h.unmade,
    h.survivors]

variable {t : State α (n + 1)} {v : Ledger α}

theorem remove_image (ht : State.Image Occurrence.element (n + 1) s t)
    (hv : w.Image Occurrence.element v) :
    ((cursor α (n + 1)).remove t v).1 = ((cursor _ (n + 1)).remove s w).1 ∧
      ((cursor _ (n + 1)).remove s w).2.2.Image Occurrence.element
        ((cursor α (n + 1)).remove t v).2.2 := by
  have hr := (operations_image (Occurrence.element (α := α)) (n + 1)).1.remove ht hv
  exact ⟨hr.result.symm, hr.world⟩

theorem remove_eq_nothing_iff (h : Follows p s w c)
    (ht : State.Image Occurrence.element (n + 1) s t) (hv : w.Image Occurrence.element v) :
    ((cursor α (n + 1)).remove t v).1 = .error .nothingToRemove ↔ c.last = none := by
  rw [(remove_image ht hv).1, h.remove.1]
  cases hc : c.last with
  | none => simp [Course.remove, hc]
  | some o => cases ho : o.removable <;> simp [Course.remove, hc, ho]

theorem remove_takes_out (h : Follows p s w c)
    (ht : State.Image Occurrence.element (n + 1) s t) (hv : w.Image Occurrence.element v)
    {o : Occurrence α} (hc : c.last = some o) (ho : o.removable = true) :
    ((cursor α (n + 1)).remove t v).1 = .ok () ∧
      ∃ before front back after,
        Plan.survivors (n + 1) p c.removed = before ++ (front ++ o :: back) :: after ∧
        Plan.contents (n + 1) p ((cursor α (n + 1)).remove t v).2.2 =
          (before ++ (front ++ back) :: after).map (List.map Occurrence.element) := by
  obtain ⟨he, hv'⟩ := remove_image ht hv
  obtain ⟨hok, before, front, back, after, hw, -⟩ := h.remove_removable hc ho
  have hsv : Plan.survivors (n + 1) p c.removed =
      before ++ (front ++ o :: back) :: (after ++ (removals α (n + 1)).unmade s) := by
    rw [← h.survivors, hw, List.append_assoc, List.cons_append]
  have hr : c.remove.2.removed = o.spot :: c.removed := by simp [Course.remove, hc, ho]
  refine ⟨he.trans hok, before, front, back, _, hsv, ?_⟩
  rw [h.remove.2.contents hv', hr, Plan.survivors_cons_of_eq hsv]

theorem remove_changes_nothing (h : Follows p s w c)
    (ht : State.Image Occurrence.element (n + 1) s t) (hv : w.Image Occurrence.element v)
    {o : Occurrence α} (hc : c.last = some o) (ho : o.removable = false) :
    ((cursor α (n + 1)).remove t v).1 = .error .notSupported ∧
      ((cursor α (n + 1)).remove t v).2.2.lists = v.lists := by
  obtain ⟨he, hv'⟩ := remove_image ht hv
  obtain ⟨hno, hl⟩ := h.remove_fixed hc ho
  exact ⟨he.trans hno, by rw [hv'.lists, hl, ← hv.lists]⟩

end Follows

/-! ## The sequence itself -/

/-- Behind any calls on a sequence there are the same calls on the labelled one, which follow the
course. -/
theorem exists_follows (of : List (Plan α n)) (ops : List Cursor.Operation) :
    let p : Plan α (n + 1) := .sequential of
    let s := start p .empty
    let r := (cursor α (n + 1)).run ops s.1 s.2
    let c := (Course.cursor α).run ops (Course.start p) ()
    ∃ t w, Follows p t w c.2.1 ∧ State.Image Occurrence.element (n + 1) t r.2.1 ∧
      w.Image Occurrence.element r.2.2 ∧ r.1 = c.1.map (Cursor.Answer.map Occurrence.element) := by
  intro p s r c
  obtain ⟨hC, hS⟩ := operations_image (Occurrence.element (α := α)) (n + 1)
  obtain ⟨hs, hw⟩ :=
    hS.build (w := .empty) (v := .empty) (Plan.image_label (n + 1) [] p) ⟨rfl, rfl⟩
  obtain ⟨ha, hs', hw'⟩ := hC.run ops hs hw
  obtain ⟨has, hf⟩ := (Follows.start of).run ops
  exact ⟨_, _, hf, hs', hw', by rw [← has]; exact ha⟩

/-- The editable lists hold the same after the other calls if the ones that are not answered quietly are
the same, and those are answered the same. -/
theorem run_eq_of_loud (of : List (Plan α n)) {ops ops' : List Cursor.Operation} :
    let p : Plan α (n + 1) := .sequential of
    let s := start p .empty
    let r := (cursor α (n + 1)).run ops s.1 s.2
    let r' := (cursor α (n + 1)).run ops' s.1 s.2
    Cursor.loud ops' r'.1 = Cursor.loud ops r.1 →
      r'.1.filter (!·.quiet) = r.1.filter (!·.quiet) ∧
        Plan.contents (n + 1) p r'.2.2 = Plan.contents (n + 1) p r.2.2 := by
  intro p s r r' h
  obtain ⟨t, w, hf, -, hw, ha⟩ := exists_follows of ops
  obtain ⟨t', w', hf', -, hw', ha'⟩ := exists_follows of ops'
  change r.1 = _ at ha
  change r'.1 = _ at ha'
  -- both runs come to the course of the loud calls alone
  rw [ha, ha', Cursor.loud_map, Cursor.loud_map] at h
  have hl := Course.run_loud ops (Course.start p)
  have hl' := Course.run_loud ops' (Course.start p)
  rw [h, hl, Prod.mk.injEq] at hl'
  refine ⟨?_, ?_⟩
  · rw [ha, ha', Cursor.filter_quiet_map, Cursor.filter_quiet_map, hl'.1]
  · rw [hf.contents hw, hf'.contents hw', hl'.2]

/-- After any calls on a sequence, a removal reports that there is nothing to remove exactly if nothing
has been handed out since the last one. Otherwise it takes the element handed out last, that very
occurrence, out of its list and nothing else out of any list; if that cannot be done, it says so and no
list changes. Calls that are answered quietly change neither the other answers nor the lists. -/
theorem remove_hits_last_yielded (of : List (Plan α n)) (ops : List Cursor.Operation) :
    let p : Plan α (n + 1) := .sequential of
    let s := start p .empty
    let r := (cursor α (n + 1)).run ops s.1 s.2
    let c := (Course.cursor α).run ops (Course.start p) ()
    let t := (cursor α (n + 1)).remove r.2.1 r.2.2
    r.1 = c.1.map (Cursor.Answer.map Occurrence.element) ∧
      Distinct (Plan.occurrenceLists (n + 1) p).flatten ∧
      Plan.contents (n + 1) p r.2.2 =
        (Plan.survivors (n + 1) p c.2.1.removed).map (List.map Occurrence.element) ∧
      (t.1 = .error .nothingToRemove ↔ Cursor.latest r.1 none = none) ∧
      (∀ x, Cursor.latest r.1 none = some x →
        ∃ o, c.2.1.last = some o ∧ o.element = x ∧
          (o.removable = true → t.1 = .ok () ∧
            ∃ before front back after,
              Plan.survivors (n + 1) p c.2.1.removed = before ++ (front ++ o :: back) :: after ∧
              Plan.contents (n + 1) p t.2.2 =
                (before ++ (front ++ back) :: after).map (List.map Occurrence.element)) ∧
          (o.removable = false → t.1 = .error .notSupported ∧ t.2.2.lists = r.2.2.lists)) ∧
      ∀ ops', let r' := (cursor α (n + 1)).run ops' s.1 s.2
        Cursor.loud ops' r'.1 = Cursor.loud ops r.1 →
          r'.1.filter (!·.quiet) = r.1.filter (!·.quiet) ∧
            Plan.contents (n + 1) p r'.2.2 = Plan.contents (n + 1) p r.2.2 := by
  intro p s r c t
  obtain ⟨s', w, hf, hs, hw, ha⟩ := exists_follows of ops
  have hlast : Cursor.latest r.1 none = c.2.1.last.map Occurrence.element := by
    have hl := Course.last_run ops (Course.start p)
    rw [hl]
    exact (congrArg (Cursor.latest · none) ha).trans (Cursor.latest_map _ _ none)
  refine ⟨ha, Plan.distinct_lists _ _ _, hf.contents hw, ?_, ?_, fun ops' => run_eq_of_loud of⟩
  · rw [hlast, Option.map_eq_none_iff]
    exact hf.remove_eq_nothing_iff hs hw
  · intro x hx
    rw [hlast, Option.map_eq_some_iff] at hx
    obtain ⟨o, hc, ho⟩ := hx
    exact ⟨o, hc, ho, hf.remove_takes_out hs hw hc, hf.remove_changes_nothing hs hw hc⟩

end ClassListing.CursorExpression
