import ClassListing.Proofs.Filter.Identity
import ClassListing.Proofs.Renderer.Text
import ClassListing.Renderer.Lines

/-!
# The four formats render every class

A rendering fails only at an accepted member without a text. Signature lines have no text for fields, but
their filter accepts none, whatever filter it is combined with.
-/

namespace ClassListing

set_option autoImplicit false

theorem Renderer.exists_render_of_renders {r : Renderer}
    (h : ∀ m, r.filter.accept m = true → ∃ text, r.renderMember m = .ok text) (c : JavaClass) :
    ∃ text, r.render c = .ok text := by
  let text (m : Member) : String := (r.renderMember m).toOption.getD ""
  have ht : ∀ m ∈ c.members.filter r.filter.accept, r.renderMember m = .ok (text m) := by
    intro m hm
    obtain ⟨t, ht⟩ := h m (List.mem_filter.mp hm).2
    simp [text, ht, Except.toOption]
  rw [render_eq, textOf, mapM_of_ok ht]
  split
  · exact ⟨_, rfl⟩
  · exact ⟨_, rfl⟩

/-- If the caller's filter is the filter for executables, it is used alone, so its number has to be its
own. -/
theorem Renderer.accept_signatures {caller : Option (Filter Member)}
    (hc : ∀ f ∈ caller, f.Identified) (free : Nat) (m : Member) :
    (signatures caller free).1.filter.accept m =
      (caller.all (fun f => f.accept m) && m.isExecutable) := by
  cases caller with
  | none => rfl
  | some f =>
    simp only [signatures, Filter.combine, Option.all_some]
    split
    · next hid =>
      have hf : f = MemberFilter.executable.filter := hc f rfl .executable hid
      have haccept : f.accept m = m.isExecutable := by
        rw [hf]
        rfl
      rw [haccept, Bool.and_self]
    · rw [Filter.accept_node]
      rfl

theorem Renderer.isField_of_isExecutable {m : Member} (h : m.isExecutable = true) :
    m.isField = false :=
  decide_eq_false (m.isExecutable_iff.mp h)

theorem Renderer.renderMember_signatures (caller : Option (Filter Member)) (free : Nat) (m : Member) :
    (signatures caller free).1.renderMember m =
      if m.isField then .error (.unsupportedMember "PscoutFormatter" m.kind)
      else .ok (signatureLine m) := rfl

theorem OutputFormat.exists_render (f : OutputFormat) {caller : Option (Filter Member)}
    (hc : ∀ g ∈ caller, g.Identified) (free : Nat) (c : JavaClass) :
    ∃ text, (f.renderer caller free).1.render c = .ok text := by
  apply Renderer.exists_render_of_renders
  intro m hm
  cases f with
  | signatures =>
    have ha : (Renderer.signatures caller free).1.filter.accept m = true := hm
    rw [Renderer.accept_signatures hc, Bool.and_eq_true] at ha
    refine ⟨Renderer.signatureLine m, (Renderer.renderMember_signatures caller free m).trans ?_⟩
    rw [Renderer.isField_of_isExecutable ha.2]
    rfl
  | csv => exact ⟨_, rfl⟩
  | detailedCsv => exact ⟨_, rfl⟩
  | classFiles => exact ⟨_, rfl⟩

end ClassListing
