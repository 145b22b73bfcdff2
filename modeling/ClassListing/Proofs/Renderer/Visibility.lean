import ClassListing.Proofs.Renderer.Details

/-!
# What a listing of visible members shows

The filter for visible members looks at two flags, and a row shows the access word that takes precedence. They
agree on all modifiers but those that are both private and protected: these are visible and shown as
private.
-/

namespace ClassListing

set_option autoImplicit false

namespace Modifiers

/-- The access word of the modifiers is that of a visible class or member. -/
def ShowsVisible (m : Modifiers) : Prop :=
  m.access.render = "public" ∨ m.access.render = "protected"

instance (m : Modifiers) : Decidable m.ShowsVisible :=
  inferInstanceAs (Decidable (_ ∨ _))

/-- The modifiers are protected, but as they are also private, no word says so. -/
structure HidesProtected (m : Modifiers) : Prop where
  isProtected : m.has .protectedAccess = true
  isPrivate : m.has .privateAccess = true
  notPublic : m.has .publicAccess = false

instance (m : Modifiers) : Decidable m.HidesProtected :=
  decidable_of_iff
    (m.has .protectedAccess = true ∧ m.has .privateAccess = true ∧ m.has .publicAccess = false)
    ⟨fun ⟨hr, hv, hp⟩ => ⟨hr, hv, hp⟩, fun ⟨hr, hv, hp⟩ => ⟨hr, hv, hp⟩⟩

theorem HidesProtected.render_access {m : Modifiers} (h : m.HidesProtected) :
    m.access.render = "private" := by
  rw [render_access_eq, h.notPublic, h.isPrivate]
  rfl

theorem isPublicOrProtected_iff (m : Modifiers) :
    m.isPublicOrProtected = true ↔ m.ShowsVisible ∨ m.HidesProtected := by
  rw [isPublicOrProtected, ShowsVisible, render_access_eq]
  constructor
  · intro h
    cases hpublic : m.has .publicAccess with
    | true => simp
    | false =>
      have hprotected : m.has .protectedAccess = true := by simpa [hpublic] using h
      -- only the private flag decides between the word `protected` and the word `private`
      cases hprivate : m.has .privateAccess with
      | true => exact Or.inr ⟨hprotected, hprivate, hpublic⟩
      | false => simp [hprotected]
  · rintro (h | h)
    · cases hpublic : m.has .publicAccess with
      | true => rfl
      | false =>
        cases hprotected : m.has .protectedAccess with
        | true => rfl
        | false =>
          rw [hpublic, hprotected] at h
          revert h
          cases m.has .privateAccess <;> decide
    · rw [h.isProtected, Bool.or_true]

end Modifiers

namespace Renderer

/-- The access of the class stands in the second column and that of the member in the fifth. -/
theorem detailRow_eq (m : Member) :
    ∃ columns, detailRow m =
      ",".intercalate ([if m.isField then "F" else "M", quote m.declaring.modifiers.access.render,
        quote (classOther m.declaring).render, quote m.declaring.name,
        quote m.modifiers.access.render] ++ columns) ++ lineEnd := by
  cases hf : m.isField with
  | true => exact ⟨_, by simp only [detailRow, hf, if_true, detailColumns, List.cons_append]; rfl⟩
  | false => exact ⟨_, by simp only [detailRow, hf, detailColumns, List.cons_append]; rfl⟩

/-- A listing of visible members has the rows of exactly those members for which each of the two columns of
access either shows `public` or `protected`, or belongs to modifiers that are private and protected and
not public; it shows `private` then. -/
theorem visible_rows_show_access (c : JavaClass) :
    (detailedCsv (some MemberFilter.visible.filter)).Shows c detailRow
        (c.members.filter fun m => decide (∀ w ∈ [m.declaring.modifiers, m.modifiers],
          w.ShowsVisible ∨ w.HidesProtected)) ∧
      (∀ w : Modifiers, w.HidesProtected → w.access.render = "private") ∧
      ∀ m : Member, ∃ columns, detailRow m =
        ",".intercalate ([if m.isField then "F" else "M", quote m.declaring.modifiers.access.render,
          quote (classOther m.declaring).render, quote m.declaring.name,
          quote m.modifiers.access.render] ++ columns) ++ lineEnd := by
  have hlisted : listedMembers (some MemberFilter.visible.filter) c =
      c.members.filter fun m => decide (∀ w ∈ [m.declaring.modifiers, m.modifiers],
        w.ShowsVisible ∨ w.HidesProtected) := by
    apply List.filter_congr
    intro m _
    have haccept : MemberFilter.visible.filter.accept m =
        (m.modifiers.isPublicOrProtected && m.declaring.modifiers.isPublicOrProtected) := rfl
    rw [Option.all_some, haccept, Bool.eq_iff_iff, Bool.and_eq_true, decide_eq_true_iff,
      Modifiers.isPublicOrProtected_iff, Modifiers.isPublicOrProtected_iff]
    simp [and_comm]
  exact ⟨hlisted ▸ shows_detailedCsv _ c, fun w => Modifiers.HidesProtected.render_access,
    detailRow_eq⟩

/-- A member that is private and protected is visible, and its row says that it is private. -/
theorem visible_listing_shows_private :
    let info : ClassInfo := ⟨"p.A", .ofFlag .publicAccess⟩
    let m : Member := ⟨info, .field, (Modifiers.ofFlag .privateAccess).union (.ofFlag .protectedAccess),
      "int", "x", [], false, false, false⟩
    (detailedCsv (some MemberFilter.visible.filter)).render ⟨info, [m], []⟩ =
        .ok (some "F,\"public\",\"\",\"p.A\",\"private\",\"\",\"int\",\"x\"\n") ∧
      ¬ m.modifiers.ShowsVisible := by
  constructor
  · decide +kernel
  · decide +kernel

end Renderer

end ClassListing
