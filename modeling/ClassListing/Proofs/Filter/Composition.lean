import ClassListing.Filter.Definition

/-!
# Filter definitions as boolean expressions

Definitions of filters read as expressions, where nothing is left out: every call gives a node. An instance is
told by where it comes from, and a combination of an instance with itself is that instance. Collapsing an
expression leaves such combinations out.
-/

namespace ClassListing

set_option autoImplicit false

/-- Where an instance comes from: it is shared by everyone, or it was made by a call. -/
inductive Site where
  | shared (number : Nat)
  | made (call : Nat)
  deriving DecidableEq, Repr

inductive FilterExpression (α : Type) where
  | leaf (site : Site) (c : Criterion α)
  | node (site : Site) (op : Connective) (left right : FilterExpression α)

theorem Connective.apply_self (op : Connective) (a : Bool) : op.apply a a = a := by
  cases op <;> cases a <;> rfl

namespace Filter

variable {α : Type}

/-- A filter and everything that it is made of. -/
def instances : Filter α → List (Filter α)
  | leaf id c => [leaf id c]
  | node id op a b => node id op a b :: (a.instances ++ b.instances)

/-- Combining gives an instance that is there already exactly if both operands are that instance. -/
theorem id_combine_eq_iff (op : Connective) (f g : Filter α) {h : Filter α} {free : Nat}
    (hfree : h.id < free) : (combine op f g free).1.id = h.id ↔ f.id = h.id ∧ g.id = h.id := by
  unfold combine
  split
  case isTrue heq =>
    rw [← heq]
    exact ⟨fun hf => ⟨hf, hf⟩, And.left⟩
  case isFalse hne =>
    have hnew : (node free op f g).id = free := rfl
    rw [hnew]
    constructor
    · omega
    · rintro ⟨hf, hg⟩
      exact absurd (hf.trans hg.symm) hne

end Filter

namespace FilterExpression

variable {α : Type}

/-- An instance that is shared by everyone. -/
def ofShared : Filter α → FilterExpression α
  | .leaf n c => leaf (.shared n) c
  | .node n op a b => node (.shared n) op (ofShared a) (ofShared b)

def value : FilterExpression α → α → Bool
  | leaf _ c, x => c.accepts x
  | node _ .and a b, x => a.value x && b.value x
  | node _ .or a b, x => a.value x || b.value x

theorem value_node (s : Site) (op : Connective) (a b : FilterExpression α) (x : α) :
    (node s op a b).value x = op.apply (a.value x) (b.value x) := by
  cases op <;> rfl

/-- The leaves that are consulted from left to right until the value is settled. -/
def consulted : FilterExpression α → α → List Site
  | leaf s _, _ => [s]
  | node _ .and a b, x => if a.value x then a.consulted x ++ b.consulted x else a.consulted x
  | node _ .or a b, x => if a.value x then a.consulted x else a.consulted x ++ b.consulted x

theorem consulted_node (s : Site) (op : Connective) (a b : FilterExpression α) (x : α) :
    (node s op a b).consulted x =
      if op.settledBy (a.value x) then a.consulted x else a.consulted x ++ b.consulted x := by
  cases op <;> cases h : a.value x <;> simp [consulted, Connective.settledBy, h]

/-- The words of the name: leaf names with what joins them. -/
def words : FilterExpression α → List String
  | leaf _ c => [c.name]
  | node _ .and a b => a.words ++ "-AND-" :: b.words
  | node _ .or a b => a.words ++ "-OR-" :: b.words

theorem words_node (s : Site) (op : Connective) (a b : FilterExpression α) :
    (node s op a b).words = a.words ++ op.separator :: b.words := by
  cases op <;> rfl

def site : FilterExpression α → Site
  | leaf s _ => s
  | node s _ _ _ => s

/-- The instance that an expression gives. -/
def result : FilterExpression α → Site
  | leaf s _ => s
  | node s _ a b => if a.result = b.result then a.result else s

/-- Replaces every combination of one instance with itself by that instance. -/
def collapsed : FilterExpression α → FilterExpression α
  | leaf s c => leaf s c
  | node s op a b => if a.result = b.result then a.collapsed else node s op a.collapsed b.collapsed

def sites : FilterExpression α → List Site
  | leaf s _ => [s]
  | node s _ a b => s :: (a.sites ++ b.sites)

theorem site_collapsed (e : FilterExpression α) : e.collapsed.site = e.result := by
  induction e with
  | leaf s c => rfl
  | node s op a b iha _ =>
    unfold result collapsed
    split
    · exact iha
    · rfl

theorem collapsed_of_result_eq (s : Site) (op : Connective) {a b : FilterExpression α}
    (h : a.result = b.result) :
    (node s op a b).collapsed = a.collapsed ∧ (node s op a b).result = a.result := by
  simp [collapsed, result, h]

theorem collapsed_of_result_ne (s : Site) (op : Connective) {a b : FilterExpression α}
    (h : a.result ≠ b.result) :
    (node s op a b).collapsed = node s op a.collapsed b.collapsed ∧ (node s op a b).result = s := by
  simp [collapsed, result, h]

/-- The filter with the shape of an expression and numbers for its sites. -/
def numbered (number : Site → Nat) : FilterExpression α → Filter α
  | leaf s c => .leaf (number s) c
  | node s op a b => .node (number s) op (a.numbered number) (b.numbered number)

section Numbered

variable (number : Site → Nat) (e : FilterExpression α)

theorem id_numbered : (e.numbered number).id = number e.site := by
  cases e <;> rfl

theorem instances_numbered :
    (e.numbered number).instances.map Filter.id = e.sites.map number := by
  induction e with
  | leaf s c => rfl
  | node s op a b iha ihb =>
    simp only [numbered, Filter.instances, sites, List.map_cons, List.map_append, iha, ihb]
    rfl

theorem accept_numbered (x : α) : (e.numbered number).accept x = e.value x := by
  induction e with
  | leaf s c => rfl
  | node s op a b iha ihb => rw [numbered, Filter.accept_node, iha, ihb, value_node]

theorem name_numbered : (e.numbered number).name = String.join e.words := by
  induction e with
  | leaf s c => simp [numbered, Filter.name, words]
  | node s op a b iha ihb =>
    rw [numbered, Filter.name, iha, ihb, words_node, String.join_append, String.join_cons,
      String.append_assoc]

theorem consult_numbered (x : α) :
    ((e.numbered number).consult x).2 = (e.consulted x).map fun s => ⟨number s, x⟩ := by
  induction e with
  | leaf s c => rfl
  | node s op a b iha ihb =>
    have hvalue : ((a.numbered number).consult x).1 = a.value x := accept_numbered number a x
    rw [consulted_node, numbered, Filter.consult]
    simp only [hvalue]
    split
    · exact iha
    · rw [List.map_append, ← iha, ← ihb]

end Numbered

theorem numbered_congr {number number' : Site → Nat} {e : FilterExpression α}
    (h : ∀ s ∈ e.sites, number s = number' s) : e.numbered number = e.numbered number' := by
  induction e with
  | leaf s c => rw [numbered, numbered, h s List.mem_cons_self]
  | node s op a b iha ihb =>
    have ha : ∀ s ∈ a.sites, number s = number' s := fun s hs => h s (by simp [sites, hs])
    have hb : ∀ s ∈ b.sites, number s = number' s := fun s hs => h s (by simp [sites, hs])
    rw [numbered, numbered, h s List.mem_cons_self, iha ha, ihb hb]

end FilterExpression

end ClassListing
