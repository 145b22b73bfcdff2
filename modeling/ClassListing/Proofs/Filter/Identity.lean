import ClassListing.Filter.Definition
import ClassListing.Filter.Member

/-!
# Filter instances and their numbers

A number stands for an instance, so a filter with the number of a shared filter is that filter. This holds of
every filter that is built in a scope, however its definitions refer to each other: new instances
take numbers that no shared filter has.
-/

namespace ClassListing

set_option autoImplicit false

/-- A filter that has the number of a shared filter is the shared filter. -/
def Filter.Identified (f : Filter Member) : Prop :=
  ∀ g : MemberFilter, f.id = g.filter.id → f = g.filter

theorem MemberFilter.identified (g : MemberFilter) : g.filter.Identified := by
  intro g' h
  rw [MemberFilter.index_injective h]

theorem MemberFilter.index_lt_firstFree (g : MemberFilter) : g.index < FilterScope.firstFree := by
  cases g <;> decide

theorem Filter.identified_of_le {f : Filter Member} (h : FilterScope.firstFree ≤ f.id) :
    f.Identified := by
  intro g hg
  have hlt := g.index_lt_firstFree
  have hid : f.id = g.index := hg
  omega

theorem Filter.combine_identified (op : Connective) {a b : Filter Member} (ha : a.Identified)
    {free : Nat} (hf : FilterScope.firstFree ≤ free) :
    (combine op a b free).1.Identified ∧ FilterScope.firstFree ≤ (combine op a b free).2 := by
  unfold combine
  split
  · exact ⟨ha, hf⟩
  · exact ⟨identified_of_le hf, Nat.le_succ_of_le hf⟩

def FilterTerm.Identified : FilterTerm Member → Prop
  | new _ => True
  | given f => f.Identified
  | named _ => True
  | combined _ a b => a.Identified ∧ b.Identified

namespace FilterScope

structure Identified (s : FilterScope Member) : Prop where
  free : firstFree ≤ s.free
  defined : ∀ p ∈ s.defined, p.2.Identified

theorem identified_initial : (initial : FilterScope Member).Identified :=
  ⟨Nat.le_refl _, fun _ h => by cases h⟩

theorem build_identified {t : FilterTerm Member} (ht : t.Identified) {s s' : FilterScope Member}
    (hs : s.Identified) {f : Filter Member} (h : s.build t = some (f, s')) :
    f.Identified ∧ s'.Identified := by
  induction t generalizing s s' f with
  | new c =>
    cases h
    exact ⟨Filter.identified_of_le hs.free, Nat.le_succ_of_le hs.free, hs.defined⟩
  | given g =>
    cases h
    exact ⟨ht, hs⟩
  | named definition =>
    obtain ⟨g, hg, heq⟩ := Option.map_eq_some_iff.mp h
    cases heq
    obtain ⟨before, after, hd, -⟩ := List.lookup_eq_some_iff.mp hg
    exact ⟨hs.defined (definition, f) (by simp [hd]), hs⟩
  | combined op a b iha ihb =>
    unfold build at h
    cases ha : s.build a with
    | none => simp [ha] at h
    | some r =>
      obtain ⟨fa, sa⟩ := r
      obtain ⟨hfa, hsa⟩ := iha ht.1 hs ha
      simp only [ha] at h
      cases hb : sa.build b with
      | none => simp [hb] at h
      | some r =>
        obtain ⟨fb, sb⟩ := r
        have hsb := (ihb ht.2 hsa hb).2
        have hc := Filter.combine_identified op (b := fb) hfa hsb.free
        simp only [hb, Option.some.injEq, Prod.mk.injEq] at h
        obtain ⟨rfl, rfl⟩ := h
        exact ⟨hc.1, hc.2, hsb.defined⟩

end FilterScope

end ClassListing
