import ClassListing.Proofs.Renderer.Calls

/-!
# The text of a class

The text of a class is put together from the texts of its accepted members, in order, and the first member
without a text decides the error. The calls say how far the filter was asked and which members were
rendered.
-/

namespace ClassListing.Renderer

set_option autoImplicit false

variable {W : Type} {r : Renderer} {c : JavaClass}

/-! ## A rendering and its calls from the list of members -/

/-- The text as the accepted members give it. -/
def textOf (r : Renderer) (c : JavaClass) : Except Error (Option String) :=
  if c.members.filter r.filter.accept = [] then .ok none
  else
    ((c.members.filter r.filter.accept).mapM r.renderMember).map fun texts =>
      some (r.classHead c ++ String.join texts ++ r.classFoot c)

def callsOf (r : Renderer) (c : JavaClass) : List Call :=
  (sought r.filter.accept c.members).map .accept ++
    match c.members.find? r.filter.accept with
    | none => []
    | some m =>
      .head :: (r.callsFrom m (unsought r.filter.accept c.members) ++
        match (c.members.filter r.filter.accept).mapM r.renderMember with
        | .error _ => []
        | .ok _ => [.foot])

theorem start_sought (note : Call → W → W) (c : JavaClass) (w : W) :
    ∃ t, r.start note c w = (⟨t, c.members.find? r.filter.accept⟩,
        ((sought r.filter.accept c.members).map Call.accept).foldl (fun w call => note call w) w) ∧
      (memberReading W).Valid t ∧
      (memberReading W).left t = unsought r.filter.accept c.members := by
  have hv := Sequential.valid_start (lists_makes W) [c.fields, c.methods] w
  have hl := Sequential.left_start (lists_makes W) [c.fields, c.methods] w
  have hm : [c.fields, c.methods].flatMap (fun members => members) = c.members := by
    simp [JavaClass.members]
  rw [hm] at hl
  obtain ⟨t, ht, hvt, hlt⟩ := refill_sought (r := r) note hv w
  refine ⟨t, ?_, hvt, hlt.trans (congrArg _ hl)⟩
  rw [← hl]
  exact ht

theorem renderNoting_eq (note : Call → W → W) (c : JavaClass) (w : W) :
    r.renderNoting note c w =
      (r.textOf c, (r.callsOf c).foldl (fun w call => note call w) w) := by
  obtain ⟨t, ht, hv, hl⟩ := start_sought (r := r) note c w
  rw [renderNoting, ht, callsOf, List.foldl_append, textOf]
  cases hx : c.members.find? r.filter.accept with
  | none =>
    rw [(sought_of_find?_none hx).2, if_pos rfl]
    rfl
  | some m =>
    have hb : ((memberReading W).left t).length < c.memberCount + 1 := by
      have hle := length_unsought_le r.filter.accept c.members
      rw [c.length_members] at hle
      rw [hl]
      omega
    have hf := filter_of_find?_some hx
    simp only [Option.isNone_some, Bool.false_eq_true, if_false, renderMembers_eq note _ m _ hv hb,
      hl, ← hf, List.foldl_cons, List.foldl_append]
    rw [if_neg (by rw [hf]; exact List.cons_ne_nil _ _)]
    cases (c.members.filter r.filter.accept).mapM r.renderMember <;> rfl

theorem render_eq (r : Renderer) (c : JavaClass) : r.render c = r.textOf c := by
  rw [render, renderAsking, renderNoting_eq]

theorem calls_eq (r : Renderer) (c : JavaClass) : r.calls c = r.callsOf c := by
  rw [calls, renderNoting_eq]
  exact List.flatMap_eq_foldl.symm.trans (List.flatMap_singleton' _)

@[simp] def Call.asked? : Call → Option Member
  | accept m => some m
  | _ => none

@[simp] def Call.rendered? : Call → Option Member
  | member m => some m
  | _ => none

theorem questions_eq (r : Renderer) (c : JavaClass) :
    (r.renderAsking c).2 =
      ((r.calls c).filterMap Call.asked?).flatMap fun m => (r.filter.consult m).2 := by
  have h : ∀ calls : List Call, calls.flatMap r.questions =
      (calls.filterMap Call.asked?).flatMap fun m => (r.filter.consult m).2 := by
    intro calls
    induction calls with
    | nil => rfl
    | cons call calls ih => cases call <;> simp [questions, List.filterMap_cons, ih]
  rw [calls_eq, ← h, renderAsking, renderNoting_eq]
  exact List.flatMap_eq_foldl.symm

/-! ## How far a rendering goes -/

theorem callsFrom_of_ok {m : Member} {xs : List Member}
    (h : ∀ x ∈ m :: xs.filter r.filter.accept, ∃ text, r.renderMember x = .ok text) :
    (r.callsFrom m xs).filterMap Call.asked? = xs ∧
      (r.callsFrom m xs).filterMap Call.rendered? = m :: xs.filter r.filter.accept := by
  induction xs generalizing m with
  | nil => exact ⟨rfl, rfl⟩
  | cons y ys ih =>
    cases hy : r.filter.accept y with
    | true =>
      rw [List.filter_cons_of_pos hy] at h ⊢
      obtain ⟨text, hm⟩ := h m List.mem_cons_self
      have hys := ih fun x hx => h x (List.mem_cons_of_mem m hx)
      simp [callsFrom, hy, hm, List.filterMap_cons, hys]
    | false =>
      rw [List.filter_cons_of_neg (by simp [hy])] at h ⊢
      simp [callsFrom, hy, List.filterMap_cons, ih h]

theorem callsFrom_of_error {m : Member} {e : Error} (hm : r.renderMember m = .error e)
    (xs : List Member) :
    (r.callsFrom m xs).filterMap Call.asked? = sought r.filter.accept xs ∧
      (r.callsFrom m xs).filterMap Call.rendered? = [m] := by
  rw [callsFrom_eq, hm]
  simp [List.filterMap_map, List.filterMap_cons, Function.comp_def]

/-- If a later member is the first that cannot be rendered, the filter has been asked about one accepted
member more. -/
theorem callsFrom_of_later_error {m x : Member} {before : List Member} {e : Error}
    (h : ∀ b ∈ m :: before.filter r.filter.accept, ∃ text, r.renderMember b = .ok text)
    (hx : r.filter.accept x = true) (he : r.renderMember x = .error e) (after : List Member) :
    (r.callsFrom m (before ++ x :: after)).filterMap Call.asked? =
        before ++ x :: sought r.filter.accept after ∧
      (r.callsFrom m (before ++ x :: after)).filterMap Call.rendered? =
        m :: (before.filter r.filter.accept ++ [x]) := by
  induction before generalizing m with
  | nil =>
    obtain ⟨text, hm⟩ := h m List.mem_cons_self
    simp [callsFrom, hx, hm, List.filterMap_cons, callsFrom_of_error he]
  | cons y ys ih =>
    cases hy : r.filter.accept y with
    | true =>
      rw [List.filter_cons_of_pos hy] at h ⊢
      obtain ⟨text, hm⟩ := h m List.mem_cons_self
      have hys := ih fun b hb => h b (List.mem_cons_of_mem m hb)
      simp [callsFrom, hy, hm, List.filterMap_cons, hys]
    | false =>
      rw [List.filter_cons_of_neg (by simp [hy])] at h ⊢
      simp [callsFrom, hy, List.filterMap_cons, ih h]

/-! ## The text -/

theorem mapM_of_ok {α β ε : Type} {f : α → Except ε β} {g : α → β} {xs : List α}
    (h : ∀ x ∈ xs, f x = .ok (g x)) : xs.mapM f = .ok (xs.map g) := by
  induction xs with
  | nil => rfl
  | cons x xs ih =>
    rw [List.mapM_cons, h x List.mem_cons_self, ih fun y hy => h y (List.mem_cons_of_mem x hy)]
    rfl

theorem mapM_of_error {α β ε : Type} {f : α → Except ε β} {before : List α} {x : α} {e : ε}
    (h : ∀ b ∈ before, ∃ y, f b = .ok y) (hx : f x = .error e) (after : List α) :
    (before ++ x :: after).mapM f = .error e := by
  induction before with
  | nil =>
    rw [List.nil_append, List.mapM_cons, hx]
    rfl
  | cons b bs ih =>
    obtain ⟨y, hb⟩ := h b List.mem_cons_self
    rw [List.cons_append, List.mapM_cons, hb, ih fun c hc => h c (List.mem_cons_of_mem b hc)]
    rfl

theorem calls_of_ok {text : Member → String}
    (hne : c.members.filter r.filter.accept ≠ [])
    (h : ∀ m ∈ c.members.filter r.filter.accept, r.renderMember m = .ok (text m)) :
    (r.calls c).filterMap Call.asked? = c.members ∧
      (r.calls c).filterMap Call.rendered? = c.members.filter r.filter.accept := by
  rw [calls_eq, callsOf, mapM_of_ok h]
  cases hx : c.members.find? r.filter.accept with
  | none => exact absurd (sought_of_find?_none hx).2 hne
  | some m =>
    have hf := filter_of_find?_some hx
    have hr : ∀ x ∈ m :: (unsought r.filter.accept c.members).filter r.filter.accept,
        ∃ text, r.renderMember x = .ok text := fun x hm => ⟨_, h x (hf ▸ hm)⟩
    obtain ⟨ha, hb⟩ := callsFrom_of_ok hr
    rw [← hf] at hb
    simp [List.filterMap_map, List.filterMap_cons, Function.comp_def, ha, hb,
      sought_append_unsought]

/-- A rendering shows some members of a class, in order, each by a row, and renders no other. Without a member
to show there is no text. -/
structure Shows (r : Renderer) (c : JavaClass) (row : Member → String) (shown : List Member) :
    Prop where
  text : r.render c = .ok (if shown = [] then none else some (String.join (shown.map row)))
  rendered : (r.calls c).filterMap Call.rendered? = shown

theorem Shows.exists_text {row : Member → String} {shown : List Member}
    (h : r.Shows c row shown) :
    ∃ t, r.render c = .ok t ∧ t.getD "" = String.join (shown.map row) := by
  refine ⟨_, h.text, ?_⟩
  split
  · next hnil => rw [hnil]; rfl
  · rfl

theorem Shows.exists_toList {row : Member → String} {shown : List Member}
    (h : r.Shows c row shown) :
    ∃ t, r.render c = .ok t ∧ (t.getD "").toList = shown.flatMap fun m => (row m).toList := by
  obtain ⟨t, hrender, htext⟩ := h.exists_text
  refine ⟨t, hrender, ?_⟩
  rw [htext, String.toList_join, List.flatMap_map]

/-- A format without head and foot shows the accepted members. -/
theorem shows_accepted {row : Member → String} {shown : List Member} (hhead : r.classHead c = "")
    (hfoot : r.classFoot c = "") (hshown : c.members.filter r.filter.accept = shown)
    (h : ∀ m ∈ shown, r.renderMember m = .ok (row m)) : r.Shows c row shown := by
  subst hshown
  constructor
  · rw [render_eq, textOf, mapM_of_ok h]
    split
    · rfl
    · simp [Except.map, hhead, hfoot]
  · by_cases hnil : c.members.filter r.filter.accept = []
    · have hnone : c.members.find? r.filter.accept = none :=
        List.find?_eq_none.mpr fun m hm => List.filter_eq_nil_iff.mp hnil m hm
      rw [calls_eq, callsOf, hnone, hnil]
      simp [List.filterMap_map, Function.comp_def]
    · exact (calls_of_ok hnil h).2

theorem calls_of_error {before after : List Member} {m : Member} {e : Error}
    (hc : c.members = before ++ m :: after) (hm : r.filter.accept m = true)
    (h : ∀ b ∈ before.filter r.filter.accept, ∃ text, r.renderMember b = .ok text)
    (he : r.renderMember m = .error e) :
    (r.calls c).filterMap Call.asked? = before ++ m :: sought r.filter.accept after ∧
      (r.calls c).filterMap Call.rendered? = before.filter r.filter.accept ++ [m] := by
  have hmap : (c.members.filter r.filter.accept).mapM r.renderMember = .error e := by
    rw [hc, List.filter_append, List.filter_cons_of_pos hm]
    exact mapM_of_error h he _
  rw [calls_eq, callsOf, hmap, hc]
  cases hx : before.find? r.filter.accept with
  | none =>
    -- the first accepted member is the one that cannot be rendered
    obtain ⟨hfind, hs, hu⟩ := sought_append_of_none hx hm after
    obtain ⟨ha, hb⟩ := callsFrom_of_error he after
    simp [hfind, hs, hu, List.filterMap_map, List.filterMap_cons, Function.comp_def, ha, hb,
      (sought_of_find?_none hx).2]
  | some x =>
    obtain ⟨hfind, hs, hu⟩ := sought_append_of_some hx (m :: after)
    have hf := filter_of_find?_some hx
    obtain ⟨ha, hb⟩ := callsFrom_of_later_error (hf ▸ h) hm he after
    have happ := sought_append_unsought r.filter.accept before
    simp only [hfind, hs, hu, List.filterMap_append, List.filterMap_cons, List.filterMap_map,
      Function.comp_def, Call.asked?, Call.rendered?, ha, hb, hf, List.append_nil]
    constructor
    · rw [← List.append_assoc]
      simp [happ]
    · simp

/-- A class has the text that its accepted members give, in order, between head and foot. A class without
one has no text, and nothing but the filter is called on for it. The first accepted member that cannot
be rendered decides the error and is the last one rendered. The filter is asked about one member after
another, up to the accepted one that follows the member in error. -/
theorem render_accepted_members (r : Renderer) (c : JavaClass) :
    let accepted := c.members.filter r.filter.accept
    let asked := (r.calls c).filterMap Call.asked?
    let rendered := (r.calls c).filterMap Call.rendered?
    (r.render c = .ok none ↔ accepted = []) ∧
      (accepted = [] → r.calls c = c.members.map .accept) ∧
      (∀ text : Member → String, accepted ≠ [] →
        (∀ m ∈ accepted, r.renderMember m = .ok (text m)) →
        r.render c = .ok (some (r.classHead c ++ String.join (accepted.map text) ++ r.classFoot c)) ∧
          rendered = accepted ∧ asked = c.members) ∧
      (∀ before m after e, c.members = before ++ m :: after → r.filter.accept m = true →
        (∀ b ∈ before.filter r.filter.accept, ∃ text, r.renderMember b = .ok text) →
        r.renderMember m = .error e →
        r.render c = .error e ∧ rendered = before.filter r.filter.accept ++ [m] ∧
          asked = before ++ m :: (after.takeWhile (fun x => !r.filter.accept x) ++
            (after.find? r.filter.accept).toList)) ∧
      (r.renderAsking c).2 = asked.flatMap fun m => (r.filter.consult m).2 := by
  intro accepted asked rendered
  refine ⟨?_, ?_, ?_, ?_, questions_eq r c⟩
  · rw [render_eq, textOf]
    by_cases hnil : accepted = []
    · rw [if_pos hnil]
      exact iff_of_true rfl hnil
    · rw [if_neg hnil]
      refine iff_of_false ?_ hnil
      cases accepted.mapM r.renderMember <;> simp [Except.map]
  · intro h
    have hnone : c.members.find? r.filter.accept = none :=
      List.find?_eq_none.mpr fun m hm => List.filter_eq_nil_iff.mp h m hm
    rw [calls_eq, callsOf, hnone, (sought_of_find?_none hnone).1, List.append_nil]
  · intro text hne h
    obtain ⟨ha, hr⟩ := calls_of_ok hne h
    refine ⟨?_, hr, ha⟩
    rw [render_eq, textOf, if_neg hne, mapM_of_ok h]
    rfl
  · intro before m after e hc hm h he
    obtain ⟨ha, hr⟩ := calls_of_error hc hm h he
    refine ⟨?_, hr, ha⟩
    have hf : accepted = before.filter r.filter.accept ++ m :: after.filter r.filter.accept := by
      simp only [accepted, hc, List.filter_append, List.filter_cons_of_pos hm]
    have hne : accepted ≠ [] := by simp [hf]
    rw [render_eq, textOf, if_neg hne]
    change (accepted.mapM r.renderMember).map _ = _
    rw [hf, mapM_of_error h he]
    rfl

end ClassListing.Renderer
