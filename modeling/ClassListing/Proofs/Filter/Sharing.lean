import ClassListing.Proofs.Filter.Composition
import ClassListing.Proofs.Filter.Identity
import Mathlib.Data.List.Forall2
import Mathlib.Data.Set.Operations

/-!
# Composition of filters with shared instances

The filters that a scope builds answer as the expressions of their definitions say, and are the collapsed
expressions with a number for each site. A registry says which sites have an instance so far and what it
is; every new instance goes to a site of its own with a number of its own.
-/

namespace ClassListing

set_option autoImplicit false

variable {α : Type}

/-- What `FilterScope` is for filters, with a node for every call. -/
structure ExpressionScope (α : Type) where
  defined : List (String × FilterExpression α)
  calls : Nat

namespace ExpressionScope

def initial : ExpressionScope α := ⟨[], 0⟩

def build (s : ExpressionScope α) : FilterTerm α → Option (FilterExpression α × ExpressionScope α)
  | .new c => some (.leaf (.made s.calls) c, { s with calls := s.calls + 1 })
  | .given f => some (.ofShared f, s)
  | .named definition => (s.defined.lookup definition).map fun e => (e, s)
  | .combined op a b =>
    match s.build a with
    | none => none
    | some (a, s) =>
      match s.build b with
      | none => none
      | some (b, s) => some (.node (.made s.calls) op a b, { s with calls := s.calls + 1 })

def defineAll (s : ExpressionScope α) :
    List (String × FilterTerm α) → Option (List (FilterExpression α))
  | [] => some []
  | (definition, t) :: ts =>
    match s.build t with
    | none => none
    | some (e, s) =>
      (defineAll { s with defined := (definition, e) :: s.defined } ts).map fun es => e :: es

end ExpressionScope

/-- The instances that are given are shared leaves. -/
def FilterTerm.Uses (shared : Nat → Criterion α) : FilterTerm α → Prop
  | new _ => True
  | given f => ∃ n < FilterScope.firstFree, f = .leaf n (shared n)
  | named _ => True
  | combined _ a b => a.Uses shared ∧ b.Uses shared

/-- The sites that have an instance: what stands there, and its number. -/
structure Registry (α : Type) where
  instanceAt : Site → Option (FilterExpression α)
  number : Site → Nat

namespace Registry

def initial (shared : Nat → Criterion α) : Registry α where
  instanceAt
    | .shared n => if n < FilterScope.firstFree then some (.leaf (.shared n) (shared n)) else none
    | .made _ => none
  number
    | .shared n => n
    | .made _ => 0

def add (r : Registry α) (call : Nat) (e : FilterExpression α) (free : Nat) : Registry α where
  instanceAt s := if s = .made call then some e else r.instanceAt s
  number s := if s = .made call then free else r.number s

def Extends (r q : Registry α) : Prop :=
  ∀ s e, r.instanceAt s = some e → q.instanceAt s = some e ∧ q.number s = r.number s

theorem Extends.refl (r : Registry α) : r.Extends r := fun _ _ h => ⟨h, rfl⟩

theorem Extends.trans {r q p : Registry α} (hrq : r.Extends q) (hqp : q.Extends p) :
    r.Extends p := by
  intro s e h
  obtain ⟨hq, hnq⟩ := hrq s e h
  obtain ⟨hp, hnp⟩ := hqp s e hq
  exact ⟨hp, hnp.trans hnq⟩

/-- What holds of a registry after some calls, when the numbers from `free` on are not taken. -/
structure Valid (shared : Nat → Criterion α) (r : Registry α) (free calls : Nat) : Prop where
  shared : ∀ n < FilterScope.firstFree,
    r.instanceAt (.shared n) = some (.leaf (.shared n) (shared n)) ∧ r.number (.shared n) = n
  below : ∀ s e, r.instanceAt s = some e → r.number s < free
  fresh : ∀ call, calls ≤ call → r.instanceAt (.made call) = none
  injective : ∀ s e t d, r.instanceAt s = some e → r.instanceAt t = some d →
    r.number s = r.number t → s = t

variable {shared : Nat → Criterion α}

theorem initial_valid : (initial shared).Valid shared FilterScope.firstFree 0 where
  shared n hn := ⟨if_pos hn, rfl⟩
  below s e h := by
    cases s with
    | shared n =>
      by_contra hn
      have hnone : (initial shared).instanceAt (.shared n) = none := if_neg hn
      rw [hnone] at h
      cases h
    | made call => cases h
  fresh _ _ := rfl
  injective s e t d hs ht heq := by
    cases s with
    | shared n =>
      cases t with
      | shared m => exact congrArg Site.shared heq
      | made call => cases ht
    | made call => cases hs

variable {r : Registry α} {free calls : Nat}

theorem Valid.skip (h : r.Valid shared free calls) : r.Valid shared free (calls + 1) :=
  { h with fresh := fun call hc => h.fresh call (Nat.le_of_succ_le hc) }

theorem add_made (call : Nat) (e : FilterExpression α) :
    (r.add call e free).instanceAt (.made call) = some e ∧
      (r.add call e free).number (.made call) = free :=
  ⟨if_pos rfl, if_pos rfl⟩

theorem add_of_ne (r : Registry α) (call : Nat) (e : FilterExpression α) (free : Nat) {s : Site}
    (h : s ≠ .made call) :
    (r.add call e free).instanceAt s = r.instanceAt s ∧
      (r.add call e free).number s = r.number s :=
  ⟨if_neg h, if_neg h⟩

theorem Valid.ne_made (h : r.Valid shared free calls) {s : Site} {e : FilterExpression α}
    (hs : r.instanceAt s = some e) : s ≠ .made calls := by
  rintro rfl
  rw [h.fresh calls (Nat.le_refl _)] at hs
  cases hs

theorem Valid.extends_add (h : r.Valid shared free calls) (e : FilterExpression α) :
    r.Extends (r.add calls e free) := by
  intro s d hs
  have hadd := add_of_ne r calls e free (h.ne_made hs)
  exact ⟨hadd.1.trans hs, hadd.2⟩

theorem Valid.add (h : r.Valid shared free calls) (e : FilterExpression α) :
    (r.add calls e free).Valid shared (free + 1) (calls + 1) where
  shared n hn := by
    have hadd := add_of_ne r calls e free (s := .shared n) nofun
    rw [hadd.1, hadd.2]
    exact h.shared n hn
  below s d hs := by
    by_cases hm : s = .made calls
    · rw [hm, (add_made calls e).2]
      exact Nat.lt_succ_self free
    · have hadd := add_of_ne r calls e free hm
      rw [hadd.1] at hs
      rw [hadd.2]
      exact Nat.lt_succ_of_lt (h.below s d hs)
  fresh call hc := by
    have hm : Site.made call ≠ .made calls := by
      rintro ⟨⟩
      omega
    rw [(add_of_ne r calls e free hm).1]
    exact h.fresh call (Nat.le_of_succ_le hc)
  injective s d t d' hs ht heq := by
    by_cases hms : s = .made calls <;> by_cases hmt : t = .made calls
    · rw [hms, hmt]
    · have hadd := add_of_ne r calls e free hmt
      rw [hms, (add_made calls e).2, hadd.2] at heq
      rw [hadd.1] at ht
      exact absurd (h.below t d' ht) (by omega)
    · have hadd := add_of_ne r calls e free hms
      rw [hmt, (add_made calls e).2, hadd.2] at heq
      rw [hadd.1] at hs
      exact absurd (h.below s d hs) (by omega)
    · have hadd := add_of_ne r calls e free hms
      have hadd' := add_of_ne r calls e free hmt
      rw [hadd.1] at hs
      rw [hadd'.1] at ht
      rw [hadd.2, hadd'.2] at heq
      exact h.injective s d t d' hs ht heq

/-- A filter is the collapsed form of an expression, at the site of its result. -/
structure Stands (r : Registry α) (e : FilterExpression α) (f : Filter α) : Prop where
  result : r.instanceAt e.result = some e.collapsed
  known : ∀ s ∈ e.collapsed.sites, (r.instanceAt s).isSome
  numbered : f = e.collapsed.numbered r.number
  value : ∀ x, e.collapsed.value x = e.value x

theorem Stands.mono {q : Registry α} {e : FilterExpression α} {f : Filter α} (h : r.Stands e f)
    (hq : r.Extends q) : q.Stands e f where
  result := (hq _ _ h.result).1
  known s hs := by
    obtain ⟨d, hd⟩ := Option.isSome_iff_exists.mp (h.known s hs)
    rw [(hq s d hd).1]
    rfl
  numbered := by
    rw [h.numbered]
    apply FilterExpression.numbered_congr
    intro s hs
    obtain ⟨d, hd⟩ := Option.isSome_iff_exists.mp (h.known s hs)
    exact (hq s d hd).2.symm
  value := h.value

theorem Stands.id_eq {e : FilterExpression α} {f : Filter α} (h : r.Stands e f) :
    f.id = r.number e.result := by
  rw [h.numbered, FilterExpression.id_numbered, FilterExpression.site_collapsed]

/-- Two filters have one number exactly if they are the instance at one site. -/
theorem Valid.id_eq_iff (h : r.Valid shared free calls) {a b : FilterExpression α} {f g : Filter α}
    (ha : r.Stands a f) (hb : r.Stands b g) : f.id = g.id ↔ a.result = b.result := by
  rw [ha.id_eq, hb.id_eq]
  exact ⟨h.injective _ _ _ _ ha.result hb.result, congrArg r.number⟩

theorem Stands.collapsed_eq {a b : FilterExpression α} {f g : Filter α} (ha : r.Stands a f)
    (hb : r.Stands b g) (heq : a.result = b.result) : a.collapsed = b.collapsed := by
  have hsome := ha.result
  rw [heq, hb.result] at hsome
  exact (Option.some.inj hsome).symm

theorem new_stands (c : Criterion α) :
    (r.add calls (.leaf (.made calls) c) free).Stands (.leaf (.made calls) c) (.leaf free c) where
  result := (add_made calls _).1
  known s hs := by
    rw [List.mem_singleton.mp hs, (add_made calls _).1]
    rfl
  numbered := congrArg (Filter.leaf · c) (add_made calls _).2.symm
  value _ := rfl

theorem Valid.given_stands (h : r.Valid shared free calls) {n : Nat}
    (hn : n < FilterScope.firstFree) :
    r.Stands (.ofShared (.leaf n (shared n))) (.leaf n (shared n)) where
  result := (h.shared n hn).1
  known s hs := by
    rw [List.mem_singleton.mp hs, (h.shared n hn).1]
    rfl
  numbered := congrArg (Filter.leaf · (shared n)) (h.shared n hn).2.symm
  value _ := rfl

/-- Combining keeps to the expression: one instance with itself is that instance, and other operands give an
instance at the site of the call. -/
theorem Valid.combine_stands (h : r.Valid shared free calls) (op : Connective)
    {a b : FilterExpression α} {f g : Filter α} (ha : r.Stands a f) (hb : r.Stands b g) :
    ∃ q : Registry α, r.Extends q ∧ q.Valid shared (Filter.combine op f g free).2 (calls + 1) ∧
      q.Stands (.node (.made calls) op a b) (Filter.combine op f g free).1 := by
  by_cases hid : f.id = g.id
  · have heq : a.result = b.result := (h.id_eq_iff ha hb).mp hid
    obtain ⟨hcollapsed, hresult⟩ :=
      FilterExpression.collapsed_of_result_eq (.made calls) op heq
    rw [Filter.combine, if_pos hid]
    refine ⟨r, Extends.refl r, h.skip, ?_, ?_, ?_, ?_⟩
    · rw [hresult, hcollapsed]
      exact ha.result
    · rw [hcollapsed]
      exact ha.known
    · rw [hcollapsed]
      exact ha.numbered
    · intro x
      have hvalue : a.value x = b.value x := by
        rw [← ha.value, ← hb.value, ha.collapsed_eq hb heq]
      rw [hcollapsed, FilterExpression.value_node, ha.value, ← hvalue, Connective.apply_self]
  · have hne : a.result ≠ b.result := fun heq => hid ((h.id_eq_iff ha hb).mpr heq)
    obtain ⟨hcollapsed, hresult⟩ :=
      FilterExpression.collapsed_of_result_ne (.made calls) op hne
    let e : FilterExpression α := .node (.made calls) op a.collapsed b.collapsed
    have hext : r.Extends (r.add calls e free) := h.extends_add e
    have ha' := ha.mono hext
    have hb' := hb.mono hext
    rw [Filter.combine, if_neg hid]
    refine ⟨r.add calls e free, hext, h.add e, ?_, ?_, ?_, ?_⟩
    · rw [hresult, hcollapsed]
      exact (add_made calls e).1
    · rw [hcollapsed]
      intro s hs
      rcases List.mem_cons.mp hs with rfl | hs
      · rw [(add_made calls e).1]
        rfl
      · rcases List.mem_append.mp hs with hs | hs
        · exact ha'.known s hs
        · exact hb'.known s hs
    · rw [hcollapsed, FilterExpression.numbered, ← ha'.numbered, ← hb'.numbered, (add_made calls e).2]
    · intro x
      rw [hcollapsed, FilterExpression.value_node, FilterExpression.value_node, ha.value, hb.value]

/-- The filters of a scope stand for the expressions of the other scope. -/
structure Describes (shared : Nat → Criterion α) (r : Registry α) (s : FilterScope α)
    (e : ExpressionScope α) : Prop where
  valid : r.Valid shared s.free e.calls
  defined : List.Forall₂ (fun p q => p.1 = q.1 ∧ r.Stands q.2 p.2) s.defined e.defined

variable {s s' : FilterScope α} {e : ExpressionScope α}

theorem Describes.initial : (initial shared).Describes shared .initial .initial :=
  ⟨initial_valid, .nil⟩

theorem exists_lookup {ps : List (String × Filter α)} {qs : List (String × FilterExpression α)}
    (h : List.Forall₂ (fun p q => p.1 = q.1 ∧ r.Stands q.2 p.2) ps qs) {definition : String}
    {f : Filter α} (hf : ps.lookup definition = some f) :
    ∃ x, qs.lookup definition = some x ∧ r.Stands x f := by
  induction h with
  | nil => cases hf
  | @cons p q ps qs hpq _ ih =>
    obtain ⟨hname, hstands⟩ := hpq
    rw [List.lookup_cons] at hf ⊢
    rw [← hname]
    split at hf
    · cases hf
      exact ⟨q.2, rfl, hstands⟩
    · exact ih hf

theorem Describes.extend (h : r.Describes shared s e) {q : Registry α} (hq : r.Extends q)
    {free calls : Nat} (hv : q.Valid shared free calls) :
    q.Describes shared { s with free } { e with calls } where
  valid := hv
  defined := h.defined.imp fun _ _ hpq => ⟨hpq.1, hpq.2.mono hq⟩

theorem Describes.build {t : FilterTerm α} (ht : t.Uses shared) (h : r.Describes shared s e)
    {f : Filter α} (hb : s.build t = some (f, s')) :
    ∃ x e' q, e.build t = some (x, e') ∧ r.Extends q ∧ q.Describes shared s' e' ∧
      q.Stands x f := by
  induction t generalizing r s s' e f with
  | new c =>
    cases hb
    let x : FilterExpression α := .leaf (.made e.calls) c
    have hext := h.valid.extends_add x
    exact ⟨x, _, _, rfl, hext, h.extend hext (h.valid.add x), new_stands c⟩
  | given g =>
    cases hb
    obtain ⟨n, hn, rfl⟩ := ht
    exact ⟨_, e, r, rfl, Extends.refl r, h, h.valid.given_stands hn⟩
  | named definition =>
    obtain ⟨g, hg, heq⟩ := Option.map_eq_some_iff.mp hb
    cases heq
    obtain ⟨x, hx, hstands⟩ := exists_lookup h.defined hg
    exact ⟨x, e, r, by rw [ExpressionScope.build, hx]; rfl, Extends.refl r, h, hstands⟩
  | combined op a b iha ihb =>
    unfold FilterScope.build at hb
    cases ha : s.build a with
    | none => simp [ha] at hb
    | some p =>
      obtain ⟨fa, sa⟩ := p
      obtain ⟨xa, ea, ra, hea, hra, hda, hsa⟩ := iha ht.1 h ha
      simp only [ha] at hb
      cases hb' : sa.build b with
      | none => simp [hb'] at hb
      | some p =>
        obtain ⟨fb, sb⟩ := p
        obtain ⟨xb, eb, rb, heb, hrb, hdb, hsb⟩ := ihb ht.2 hda hb'
        simp only [hb', Option.some.injEq, Prod.mk.injEq] at hb
        obtain ⟨rfl, rfl⟩ := hb
        obtain ⟨q, hq, hvalid, hstands⟩ := hdb.valid.combine_stands op (hsa.mono hrb) hsb
        refine ⟨_, _, q, ?_, (hra.trans hrb).trans hq, hdb.extend hq hvalid, hstands⟩
        rw [ExpressionScope.build, hea]
        simp only [heb]

theorem Describes.defineAll {ts : List (String × FilterTerm α)}
    (hts : ∀ d ∈ ts, d.2.Uses shared) (h : r.Describes shared s e) {fs : List (Filter α)}
    (hd : s.defineAll ts = some (fs, s')) :
    ∃ es q calls, e.defineAll ts = some es ∧ r.Extends q ∧ q.Valid shared s'.free calls ∧
      List.Forall₂ q.Stands es fs := by
  induction ts generalizing r s e fs with
  | nil =>
    cases hd
    exact ⟨[], r, e.calls, rfl, Extends.refl r, h.valid, .nil⟩
  | cons d ts ih =>
    obtain ⟨definition, t⟩ := d
    rw [FilterScope.defineAll, FilterScope.define] at hd
    cases hb : s.build t with
    | none => simp [hb] at hd
    | some p =>
      obtain ⟨f, sb⟩ := p
      simp only [hb, Option.map_some] at hd
      obtain ⟨⟨gs, sd⟩, hrest, heq⟩ := Option.map_eq_some_iff.mp hd
      cases heq
      obtain ⟨x, eb, rb, heb, hrb, hdb, hsb⟩ := h.build (hts _ List.mem_cons_self) hb
      have hnext : rb.Describes shared { sb with defined := (definition, f) :: sb.defined }
          { eb with defined := (definition, x) :: eb.defined } :=
        ⟨hdb.valid, .cons ⟨rfl, hsb⟩ hdb.defined⟩
      obtain ⟨es, q, calls, hes, hq, hvalid, hall⟩ :=
        ih (fun d hd => hts d (List.mem_cons_of_mem _ hd)) hnext hrest
      refine ⟨x :: es, q, calls, ?_, hrb.trans hq, hvalid, .cons (hsb.mono hq) hall⟩
      rw [ExpressionScope.defineAll, heb]
      simp only [hes, Option.map_some]

theorem Valid.id_lt_free (h : r.Valid shared free calls) {x : FilterExpression α} {f g : Filter α}
    (hf : r.Stands x f) (hg : g ∈ f.instances) : g.id < free := by
  have hid : g.id ∈ x.collapsed.sites.map r.number := by
    rw [← FilterExpression.instances_numbered, ← hf.numbered]
    exact List.mem_map_of_mem hg
  obtain ⟨site, hsite, heq⟩ := List.mem_map.mp hid
  obtain ⟨d, hd⟩ := Option.isSome_iff_exists.mp (hf.known site hsite)
  rw [← heq]
  exact h.below site d hd

theorem Valid.firstFree_le (h : r.Valid shared free calls) : FilterScope.firstFree ≤ free := by
  obtain ⟨hsome, hnumber⟩ := h.shared 7 (by decide)
  have hlt := h.below _ _ hsome
  rw [hnumber] at hlt
  exact hlt

theorem exists_of_forall₂ {β γ : Type} {rel : β → γ → Prop} {bs : List β} {cs : List γ}
    (h : List.Forall₂ rel bs cs) {b : β} (hb : b ∈ bs) : ∃ c, rel b c := by
  induction h with
  | nil => cases hb
  | cons hbc _ ih =>
    rcases List.mem_cons.mp hb with rfl | hb
    · exact ⟨_, hbc⟩
    · exact ih hb

theorem Valid.injOn (h : r.Valid shared free calls) {es : List (FilterExpression α)}
    {fs : List (Filter α)} (hall : List.Forall₂ r.Stands es fs) :
    Set.InjOn r.number {site | (∃ n < FilterScope.firstFree, site = .shared n) ∨
      ∃ e ∈ es, site ∈ e.collapsed.sites} := by
  have hknown : ∀ site, ((∃ n < FilterScope.firstFree, site = .shared n) ∨
      ∃ e ∈ es, site ∈ e.collapsed.sites) → ∃ d, r.instanceAt site = some d := by
    rintro site (⟨n, hn, rfl⟩ | ⟨e, he, hsite⟩)
    · exact ⟨_, (h.shared n hn).1⟩
    · obtain ⟨f, hf⟩ := exists_of_forall₂ hall he
      exact Option.isSome_iff_exists.mp (hf.known site hsite)
  intro site hsite other hother heq
  obtain ⟨d, hd⟩ := hknown site hsite
  obtain ⟨d', hd'⟩ := hknown other hother
  exact h.injective site d other d' hd hd' heq

end Registry

/-- The filters that definitions give, whatever they share: answers are the values of the expressions, the
leaves that are asked and the names are those of the collapsed expressions, with one number for each
instance, and a further combination is an instance that is there exactly if both operands are that instance. -/
theorem FilterScope.defined_filters_follow_expressions {shared : Nat → Criterion α}
    {ds : List (String × FilterTerm α)} (huses : ∀ d ∈ ds, d.2.Uses shared)
    {fs : List (Filter α)} {s : FilterScope α} (hdefined : initial.defineAll ds = some (fs, s)) :
    ∃ es number, ExpressionScope.initial.defineAll ds = some es ∧
      (∀ n < firstFree, number (.shared n) = n) ∧
      Set.InjOn number {site | (∃ n < firstFree, site = .shared n) ∨
        ∃ e ∈ es, site ∈ e.collapsed.sites} ∧
      List.Forall₂ (fun e f =>
        f.id = number e.result ∧
        f.name = String.join e.collapsed.words ∧
        ∀ x, f.accept x = e.value x ∧
          (f.consult x).2 = (e.collapsed.consulted x).map fun site => ⟨number site, x⟩) es fs ∧
      ∀ (op : Connective) (f g h : Filter α),
        ((∃ n < firstFree, h = .leaf n (shared n)) ∨ ∃ f ∈ fs, h ∈ f.instances) →
        ((Filter.combine op f g s.free).1.id = h.id ↔ f.id = h.id ∧ g.id = h.id) := by
  obtain ⟨es, r, calls, hes, -, hvalid, hall⟩ :=
    Registry.Describes.initial.defineAll huses hdefined
  refine ⟨es, r.number, hes, fun n hn => (hvalid.shared n hn).2, hvalid.injOn hall, ?_, ?_⟩
  · refine hall.imp fun e f hf => ⟨hf.id_eq, ?_, fun x => ⟨?_, ?_⟩⟩
    · rw [hf.numbered, FilterExpression.name_numbered]
    · rw [hf.numbered, FilterExpression.accept_numbered, hf.value]
    · rw [hf.numbered, FilterExpression.consult_numbered]
  · intro op f g h hexisting
    apply Filter.id_combine_eq_iff
    rcases hexisting with ⟨n, hn, rfl⟩ | ⟨f, hf, hh⟩
    · exact Nat.lt_of_lt_of_le hn hvalid.firstFree_le
    · obtain ⟨e, hstands⟩ := Registry.exists_of_forall₂ (List.Forall₂.flip hall) hf
      exact hvalid.id_lt_free hstands hh

namespace MemberFilter

/-- The criteria of the shared filters over members. -/
def shared (number : Nat) : Criterion Member :=
  match list[number]? with
  | some f => ⟨f.text, f.accepts⟩
  | none => .everything

theorem uses_given (f : MemberFilter) : (FilterTerm.given f.filter).Uses shared :=
  ⟨f.index, f.index_lt_firstFree, by cases f <;> rfl⟩

end MemberFilter

/-- A filter of members combined with itself, and what was made of it used three times, next to two leaves
that are alike but not one. -/
theorem FilterScope.visible_filters_follow_expressions :
    let visible : FilterTerm Member := .given MemberFilter.visible.filter
    let ds : List (String × FilterTerm Member) :=
      [("v", .combined .and visible visible),
        ("x", .combined .or (.named "v") (.given MemberFilter.field.filter)),
        ("y", .combined .and (.named "x") (.combined .or (.named "x") (.named "x"))),
        ("z", .combined .or (.new .everything) (.new .everything))]
    ∃ fs s es, ∃ number : Site → Nat, initial.defineAll ds = some (fs, s) ∧
      fs.map Filter.id = [7, 8, 8, 11] ∧
      fs.map Filter.name = ["VISIBLE", "VISIBLE-OR-FIELD", "VISIBLE-OR-FIELD", "ALL-OR-ALL"] ∧
      ExpressionScope.initial.defineAll ds = some es ∧
      es.map FilterExpression.result = [.shared 7, .made 1, .made 1, .made 6] ∧
      List.Forall₂ (fun e f =>
        f.id = number e.result ∧
        f.name = String.join e.collapsed.words ∧
        ∀ x, f.accept x = e.value x ∧
          (f.consult x).2 = (e.collapsed.consulted x).map fun site => ⟨number site, x⟩) es fs := by
  intro visible ds
  have huses : ∀ d ∈ ds, d.2.Uses MemberFilter.shared := by
    have hvisible := MemberFilter.visible.uses_given
    have hfield := MemberFilter.field.uses_given
    simp only [ds, List.forall_mem_cons]
    exact ⟨⟨hvisible, hvisible⟩, ⟨trivial, hfield⟩, ⟨trivial, trivial, trivial⟩, ⟨trivial, trivial⟩,
      by simp⟩
  obtain ⟨es, number, hes, -, -, hall, -⟩ :=
    defined_filters_follow_expressions huses (rfl : initial.defineAll ds = some (_, _))
  refine ⟨_, _, es, number, rfl, rfl, ?_, hes, ?_, hall⟩
  · decide +kernel
  · cases hes
    rfl

end ClassListing
