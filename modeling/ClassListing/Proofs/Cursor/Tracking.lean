import ClassListing.Proofs.Cursor.View

/-!
# Removals from combined cursors

A sequence keeps the sub-cursor that yielded last until something has been removed or yielded, so a removal
is about what that one says, however far the sequence has moved on. A filtered cursor holds what its
inner one holds and removes nothing.
-/

namespace ClassListing.CursorExpression

set_option autoImplicit false

open Holdings

variable {α π σ : Type}

/-! ## One after another -/

namespace Sequence

structure Sound (V : View σ α) (s : Sequential π σ) : Prop where
  current : ∀ c ∈ s.current, V.Sound c
  retired : ∀ c ∈ s.retired, V.Sound c
  pending : s.current = none → s.pending = []

structure Marked (V : View σ α) (PlanMarked : π → Prop) (s : Sequential π σ) : Prop where
  current : ∀ c ∈ s.current, V.Marked c
  pending : ∀ p ∈ s.pending, PlanMarked p

/-- A removal is about what the sub-cursor that yielded last says. -/
def Aims (V : View σ α) (s : Sequential π σ) (x : α) : Prop :=
  match s.last with
  | .nothing => False
  | .current => ∃ c ∈ s.current, V.Aims c x
  | .retired => ∃ c ∈ s.retired, V.Aims c x

def view (V : View σ α) (lists : π → List (List α)) (PlanMarked : π → Prop) :
    View (Sequential π σ) α where
  held s := s.retired.elim [] V.held ++ s.current.elim [] V.held
  unmade s := s.current.elim [] V.unmade ++ s.pending.flatMap lists
  Sound := Sound V
  Marked := Marked V PlanMarked
  Aims := Aims V

variable {C : Cursor (Ledger α) σ α} {S : Supply (Ledger α) π σ} {R : C.Reading} {mark : α → Bool}
  {V : View σ α} {lists : π → List (List α)} {PlanMarked : π → Prop} {pending : List π} {c : σ}
  {retired : Option σ} {last : LastFrom} {w : Ledger α}

theorem fits_current (hf : Fits ((view V lists PlanMarked).held ⟨pending, some c, retired, last⟩)
    w.lists) : Fits (V.held c) w.lists :=
  hf.sublist (List.sublist_append_right _ _)

theorem fits_retired {current : Option σ}
    (hf : Fits ((view V lists PlanMarked).held ⟨pending, current, retired, last⟩) w.lists) :
    Fits (retired.elim [] V.held) w.lists :=
  hf.sublist (List.sublist_append_left _ _)

theorem reads_current (hs : Sound V (⟨pending, some c, retired, last⟩ : Sequential π σ))
    (hf : Fits ((view V lists PlanMarked).held ⟨pending, some c, retired, last⟩) w.lists)
    {c' : σ} {w' : Ledger α} (hr : V.Reads c w c' w') :
    (view V lists PlanMarked).Reads ⟨pending, some c, retired, last⟩ w
      ⟨pending, some c', retired, last⟩ w' :=
  ⟨⟨by simpa using hr.sound, hs.retired, by simp⟩,
    (hr.grows.append_unmade (pending.flatMap lists)).append_left (fits_retired hf),
    fun hm => ⟨by simpa using hr.marked (hm.current c rfl), hm.pending⟩⟩

theorem aims_hasNext (hV : V.Tracks C R mark)
    (hs : Sound V (⟨pending, some c, retired, last⟩ : Sequential π σ))
    (hf : Fits ((view V lists PlanMarked).held ⟨pending, some c, retired, last⟩) w.lists) {x : α}
    (ha : Aims V (⟨pending, some c, retired, last⟩ : Sequential π σ) x) :
    Aims V (⟨pending, some (C.hasNext c w).2.1, retired, last⟩ : Sequential π σ) x := by
  cases last with
  | nothing => exact ha
  | current =>
    obtain ⟨e, he, ha⟩ := ha
    cases he
    exact ⟨_, rfl, hV.hasNext_aims (hs.current c rfl) (fits_current hf) ha⟩
  | retired => exact ha

/-- The current sub-cursor is left behind: it is kept if it yielded last. -/
theorem leave (hV : V.Tracks C R mark)
    (hs : Sound V (⟨pending, some c, retired, last⟩ : Sequential π σ))
    (hf : Fits ((view V lists PlanMarked).held ⟨pending, some c, retired, last⟩) w.lists)
    (hm : (C.hasNext c w).1 = false) :
    let kept := Sequential.kept (C.hasNext c w).2.1 retired last
    Grows ((view V lists PlanMarked).held ⟨pending, some c, retired, last⟩)
        ((view V lists PlanMarked).unmade ⟨pending, some c, retired, last⟩) w.lists
        (kept.1.elim [] V.held) (pending.flatMap lists) (C.hasNext c w).2.2.lists ∧
      (∀ d ∈ kept.1, V.Sound d) ∧
      ∀ x (ps : List π) d, Aims V (⟨pending, some c, retired, last⟩ : Sequential π σ) x →
        Aims V ⟨ps, d, kept.1, kept.2⟩ x := by
  intro kept
  have hfc := fits_current hf
  have hr := reads_current hs hf (hV.hasNext (hs.current c rfl) hfc)
  have hu := hV.hasNext_end (hs.current c rfl) hfc hm
  have hg := hr.grows
  simp only [view, Option.elim_some, hu, List.nil_append] at hg
  by_cases hl : last = .current
  · subst hl
    have hk : kept = (some (C.hasNext c w).2.1, .retired) := if_pos rfl
    rw [hk]
    refine ⟨hg.sublist (List.sublist_append_right _ _), hr.sound.current, ?_⟩
    rintro x ps d ⟨e, he, ha⟩
    cases he
    exact ⟨_, rfl, hV.hasNext_aims (hs.current c rfl) hfc ha⟩
  · have hk : kept = (retired, last) := if_neg hl
    rw [hk]
    refine ⟨hg.sublist (List.sublist_append_left _ _), hs.retired, ?_⟩
    intro x ps d ha
    cases last with
    | nothing => exact ha
    | current => exact absurd rfl hl
    | retired => exact ha

structure Advanced (V : View σ α) (lists : π → List (List α)) (PlanMarked : π → Prop)
    (s : Sequential π σ) (w : Ledger α) (r : Bool × Sequential π σ × Ledger α) : Prop where
  reads : (view V lists PlanMarked).Reads s w r.2.1 r.2.2
  ended : r.1 = false → (view V lists PlanMarked).unmade r.2.1 = []
  aims : ∀ x, Aims V s x → Aims V r.2.1 x

theorem advanced_of_more (hV : V.Tracks C R mark) (S : Supply (Ledger α) π σ)
    (hs : Sound V (⟨pending, some c, retired, last⟩ : Sequential π σ))
    (hf : Fits ((view V lists PlanMarked).held ⟨pending, some c, retired, last⟩) w.lists)
    (hm : (C.hasNext c w).1 = true) :
    Advanced V lists PlanMarked ⟨pending, some c, retired, last⟩ w
      (Sequential.advanceFrom C S pending c retired last w) := by
  rw [Sequential.advanceFrom_of_more hm]
  exact ⟨reads_current hs hf (hV.hasNext (hs.current c rfl) (fits_current hf)), by simp,
    fun x ha => aims_hasNext hV hs hf ha⟩

theorem advanceFrom_advanced (hV : V.Tracks C R mark) (hS : V.Brings S lists PlanMarked)
    (hs : Sound V (⟨pending, some c, retired, last⟩ : Sequential π σ))
    (hf : Fits ((view V lists PlanMarked).held ⟨pending, some c, retired, last⟩) w.lists) :
    Advanced V lists PlanMarked ⟨pending, some c, retired, last⟩ w
      (Sequential.advanceFrom C S pending c retired last w) := by
  induction pending generalizing c retired last w with
  | nil =>
    cases hm : (C.hasNext c w).1 with
    | true => exact advanced_of_more hV S hs hf hm
    | false =>
      obtain ⟨hg, hsd, ha⟩ := leave hV hs hf hm
      rw [Sequential.advanceFrom_nil hm]
      refine ⟨⟨⟨by simp, hsd, by simp⟩, ?_, fun _ => ⟨by simp, by simp⟩⟩, fun _ => rfl,
        fun x => ha x [] none⟩
      simpa [view, hS.ended] using hg
  | cons p ps ih =>
    cases hm : (C.hasNext c w).1 with
    | true => exact advanced_of_more hV S hs hf hm
    | false =>
      obtain ⟨hg, hsd, ha⟩ := leave hV hs hf hm
      rw [Sequential.advanceFrom_cons hm]
      generalize Sequential.kept (C.hasNext c w).2.1 retired last = kept at hg hsd ha
      generalize (C.hasNext c w).2.2 = w' at hg
      -- the next plan is made while what was left behind stays held
      have hb := ((hS.grows p w').append_unmade (ps.flatMap lists)).append_left (hg.fits hf)
      rw [List.append_nil] at hb
      have hg' := hg.trans hb
      have hsd' : Sound V (⟨ps, some (S.build p w').1, kept.1, kept.2⟩ : Sequential π σ) :=
        ⟨by simpa using hS.sound p w', hsd, by simp⟩
      obtain ⟨hr, he, ha'⟩ := ih hsd' (hg'.fits hf)
      refine ⟨⟨hr.sound, hg'.trans hr.grows, fun hmark => hr.marked ?_⟩, he,
        fun x hx => ha' x (ha x ps _ hx)⟩
      obtain ⟨hp, hps⟩ := List.forall_mem_cons.mp hmark.pending
      exact ⟨by simpa using hS.marked p w' hp, hps⟩

theorem advance_advanced (hV : V.Tracks C R mark) (hS : V.Brings S lists PlanMarked)
    {s : Sequential π σ} (hs : Sound V s) (hf : Fits ((view V lists PlanMarked).held s) w.lists) :
    Advanced V lists PlanMarked s w (Sequential.advance C S s w) := by
  obtain ⟨pending, current, retired, last⟩ := s
  cases current with
  | none =>
    have hp : pending = [] := hs.pending rfl
    subst hp
    exact ⟨View.Reads.refl hs hf, fun _ => rfl, fun x ha => ha⟩
  | some c => exact advanceFrom_advanced hV hS hs hf

theorem valid_of_sound (hV : V.Tracks C R mark) {s : Sequential π σ} (hs : Sound V s) : s.Valid R :=
  ⟨fun c hc => hV.valid (hs.current c hc), hs.pending⟩

/-- Yielding forgets the sub-cursor that was left behind. -/
theorem reads_next (hV : V.Tracks C R mark) (hS : V.Brings S lists PlanMarked)
    {elements : π → List α} (hM : S.Makes R elements) {s : Sequential π σ} (hs : Sound V s)
    (hf : Fits ((view V lists PlanMarked).held s) w.lists) :
    (view V lists PlanMarked).Reads s w (s.next C S w).2.1 (s.next C S w).2.2 := by
  have ha := (advance_advanced hV hS hs hf).reads
  rcases Sequential.next_cases hM (valid_of_sound hV hs) w with ⟨-, hn⟩ | ⟨c, x, -, hc, -, hn⟩
  · rw [hn]
    exact ha
  · rw [hn]
    refine ha.trans ?_
    have hfa := ha.grows.fits hf
    have hsa := ha.sound
    generalize (Sequential.advance C S s w).2.1 = t at hc hfa hsa
    generalize (Sequential.advance C S s w).2.2 = w' at hfa
    obtain ⟨pending, current, retired, last⟩ := t
    cases hc
    obtain ⟨hso, hg, hm⟩ :=
      reads_current hsa hfa (hV.next (hsa.current c rfl) (fits_current hfa))
    exact ⟨⟨hso.current, by simp, by simp⟩, hg.sublist (List.sublist_append_right _ _),
      fun hmark => ⟨(hm hmark).current, (hm hmark).pending⟩⟩

theorem aims_next (hV : V.Tracks C R mark) (hS : V.Brings S lists PlanMarked)
    {elements : π → List α} (hM : S.Makes R elements) {s : Sequential π σ} (hs : Sound V s)
    (hf : Fits ((view V lists PlanMarked).held s) w.lists) (hm : Marked V PlanMarked s) {x : α}
    (hx : (s.next C S w).1 = some x) : Aims V (s.next C S w).2.1 x := by
  have ha := (advance_advanced hV hS hs hf).reads
  rcases Sequential.next_cases hM (valid_of_sound hV hs) w with ⟨-, hn⟩ | ⟨c, y, -, hc, hy, hn⟩
  · simp [hn] at hx
  · rw [hn] at hx ⊢
    cases hx
    have hfa := ha.grows.fits hf
    have hsa := ha.sound
    have hma := ha.marked hm
    generalize (Sequential.advance C S s w).2.1 = t at hc hfa hsa hma
    generalize (Sequential.advance C S s w).2.2 = w' at hy hfa
    obtain ⟨pending, current, retired, last⟩ := t
    cases hc
    exact ⟨_, rfl, hV.next_aims (hsa.current c rfl) (fits_current hfa) (hma.current c rfl) hy⟩

theorem removes_remove (hV : V.Tracks C R mark) {s : Sequential π σ} (hs : Sound V s)
    (hf : Fits ((view V lists PlanMarked).held s) w.lists) {x : α} (ha : Aims V s x) :
    (view V lists PlanMarked).Removes mark x s w (s.remove C w) := by
  obtain ⟨pending, current, retired, last⟩ := s
  cases last with
  | nothing => exact ha.elim
  | current =>
    obtain ⟨c, hc, ha⟩ := ha
    cases hc
    obtain ⟨hso, hu, hm, hp, hi⟩ := hV.remove (hs.current c rfl) (fits_current hf) ha
    refine ⟨⟨by simpa [Sequential.remove] using hso, hs.retired, by simp [Sequential.remove]⟩,
      by simp [Sequential.remove, view, hu], ?_, ?_, ?_⟩
    · exact fun hmark =>
        ⟨by simpa [Sequential.remove] using hm (hmark.current c rfl), hmark.pending⟩
    · intro hx
      obtain ⟨hok, he⟩ := hp hx
      exact ⟨hok, he.append_left hf⟩
    · intro hx
      obtain ⟨hno, hh, hl⟩ := hi hx
      exact ⟨hno, (List.Sublist.refl _).append hh, hl⟩
  | retired =>
    -- what was left behind is given up once the removal has been tried
    obtain ⟨c, hc, ha⟩ := ha
    cases hc
    obtain ⟨-, -, -, hp, hi⟩ := hV.remove (hs.retired c rfl) (fits_retired hf) ha
    refine ⟨⟨hs.current, by simp [Sequential.remove], hs.pending⟩, rfl,
      fun hmark => ⟨hmark.current, hmark.pending⟩, ?_, ?_⟩
    · intro hx
      obtain ⟨hok, he⟩ := hp hx
      exact ⟨hok, he.append_right hf⟩
    · intro hx
      obtain ⟨hno, -, hl⟩ := hi hx
      exact ⟨hno, List.sublist_append_right _ _, hl⟩

theorem tracks (hV : V.Tracks C R mark) (hS : V.Brings S lists PlanMarked)
    {elements : π → List α} (hM : S.Makes R elements) :
    (view V lists PlanMarked).Tracks (Sequential.cursor C S) (Sequential.reading hM) mark where
  valid hs := valid_of_sound hV hs
  next hs hf := reads_next hV hS hM hs hf
  next_end {s w} hs hf hn := by
    have ha := advance_advanced (w := w) hV hS hs hf
    rcases Sequential.next_cases hM (valid_of_sound hV hs) w with ⟨he, hn'⟩ | ⟨c, y, -, -, -, hn'⟩
    · change (view V lists PlanMarked).unmade (s.next C S w).2.1 = [] ∧
        ∀ x, Aims V s x → Aims V (s.next C S w).2.1 x
      rw [hn']
      exact ⟨ha.ended he, ha.aims⟩
    · change (s.next C S w).1 = none at hn
      simp [hn'] at hn
  next_aims hs hf hm hx := aims_next hV hS hM hs hf hm hx
  hasNext hs hf := (advance_advanced hV hS hs hf).reads
  hasNext_end hs hf hm := (advance_advanced hV hS hs hf).ended hm
  hasNext_aims hs hf ha := (advance_advanced hV hS hs hf).aims _ ha
  remove hs hf ha := removes_remove hV hs hf ha

end Sequence

/-! ## Filtered -/

namespace Selection

/-- Nothing looked up means that nothing remains to be made inside. -/
structure Sound {C : Cursor (Ledger α) σ α} (R : C.Reading) (V : View σ α) (f : Filtered σ α) :
    Prop where
  valid : f.Valid R
  inner : V.Sound f.inner
  lookahead : f.lookahead = none → V.unmade f.inner = []

/-- Elements that are filtered are not to be marked: they cannot be removed. -/
def view {C : Cursor (Ledger α) σ α} (R : C.Reading) (V : View σ α) (mark accepts : α → Bool) :
    View (Filtered σ α) α where
  held f := V.held f.inner
  unmade f := V.unmade f.inner
  Sound := Sound R V
  Marked f := ∀ x ∈ f.left R accepts, mark x = false
  Aims _ x := mark x = false

variable {C : Cursor (Ledger α) σ α} {R : C.Reading} {V : View σ α} {mark accepts : α → Bool}
  {ask : α → Ledger α → Bool × Ledger α}

theorem find_found (hV : V.Tracks C R mark) (hl : ∀ x w, (ask x w).2.lists = w.lists)
    (bound : Nat) {s : σ} {w : Ledger α} (hs : V.Sound s) (hf : Fits (V.held s) w.lists)
    (hb : (R.left s).length < bound) :
    let r := Filtered.find C ask bound s w
    V.Sound r.2.1 ∧
      Grows (V.held s) (V.unmade s) w.lists (V.held r.2.1) (V.unmade r.2.1) r.2.2.lists ∧
      (r.1 = none → V.unmade r.2.1 = []) := by
  induction bound generalizing s w with
  | zero => omega
  | succ bound ih =>
    have hr := hV.next hs hf
    have he := hV.next_end hs hf
    have hn := R.next_eq w (hV.valid hs)
    have hleft := R.next_left w (hV.valid hs)
    unfold Filtered.find
    generalize C.next s w = r at hr he hn hleft
    obtain ⟨x, s', w'⟩ := r
    cases x with
    | none => exact ⟨hr.sound, hr.grows, fun _ => (he rfl).1⟩
    | some x =>
      have hg := hr.grows
      simp only [← hl x w'] at hg
      simp only
      split
      · exact ⟨hr.sound, hg, by simp⟩
      · -- an element has been passed over, so fewer are left
        obtain ⟨xs, hxs⟩ := List.head?_eq_some_iff.mp hn.symm
        simp only [hxs, List.tail_cons] at hleft
        obtain ⟨hs'', hg', hend⟩ := ih hr.sound (hg.fits hf) (by simp_all)
        exact ⟨hs'', hg.trans hg', hend⟩

theorem refill_found (hV : V.Tracks C R mark) (ha : ∀ x w, (ask x w).1 = accepts x)
    (hl : ∀ x w, (ask x w).2.lists = w.lists) {s : σ} {w : Ledger α} (hs : V.Sound s)
    (hf : Fits (V.held s) w.lists) :
    Sound R V (Filtered.refill C ask s w).1 ∧
      Grows (V.held s) (V.unmade s) w.lists (V.held (Filtered.refill C ask s w).1.inner)
        (V.unmade (Filtered.refill C ask s w).1.inner) (Filtered.refill C ask s w).2.lists := by
  have hv := (Filtered.refill_reading ha w (hV.valid hs)).1
  have hb := Nat.lt_succ_of_le (R.length_le (hV.valid hs))
  obtain ⟨hs', hg, hend⟩ := find_found hV hl _ hs hf hb
  exact ⟨⟨hv, hs', hend⟩, hg⟩

theorem tracks (hV : V.Tracks C R mark) (ha : ∀ x w, (ask x w).1 = accepts x)
    (hl : ∀ x w, (ask x w).2.lists = w.lists) :
    (view R V mark accepts).Tracks (Filtered.cursor C ask) (Filtered.reading R ha) mark where
  valid hs := hs.valid
  next {f w} hs hf := by
    have hm : (view R V mark accepts).Marked f → (view R V mark accepts).Marked
        ((Filtered.cursor C ask).next f w).2.1 := by
      intro hm x hx
      change x ∈ (Filtered.next C ask f w).2.1.left R accepts at hx
      rw [(Filtered.next_reading ha hs.valid w).2.2] at hx
      exact hm x (List.mem_of_mem_tail hx)
    obtain ⟨inner, lookahead⟩ := f
    cases lookahead with
    | none => exact View.Reads.refl hs hf
    | some x =>
      obtain ⟨hs', hg⟩ := refill_found hV ha hl hs.inner hf
      exact ⟨hs', hg, hm⟩
  next_end {f w} hs hf hn := by
    obtain ⟨inner, lookahead⟩ := f
    cases lookahead with
    | none => exact ⟨hs.lookahead rfl, fun _ ha => ha⟩
    | some x => simp [Filtered.cursor, Filtered.next] at hn
  next_aims {f w x} hs hf hm hx := by
    change (Filtered.next C ask f w).1 = some x at hx
    rw [(Filtered.next_reading ha hs.valid w).1] at hx
    exact hm x (List.mem_of_head? hx)
  hasNext hs hf := View.Reads.refl hs hf
  hasNext_end {f w} hs hf hm := by
    obtain ⟨inner, lookahead⟩ := f
    cases lookahead with
    | none => exact hs.lookahead rfl
    | some x => simp [Filtered.cursor] at hm
  hasNext_aims _ _ ha := ha
  remove {f w x} hs hf ha := by
    have hx : mark x = false := ha
    exact ⟨hs, rfl, fun hm => hm, by simp [hx], fun _ => ⟨rfl, .refl _, rfl⟩⟩

end Selection

end ClassListing.CursorExpression
