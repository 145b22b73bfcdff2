import ClassListing.Catalog
import ClassListing.Proofs.ClassRecord.Values

/-!
# Class records in any layout

Which JSON values lay out a class record, and which lay out none. Reading gives the record of every layout,
whatever the text of the value is, and refuses the others.
-/

namespace ClassListing

set_option autoImplicit false

open Json (Value Bytes)

/-! ## Values for drafts -/

section

variable {α : Type} {x default : α} {given : Option α}

theorem eq_some_of_held (h : ∀ y, given = some y → y = x) (hgiven : given.isSome ≠ false) :
    given = some x := by
  cases given with
  | none => exact absurd rfl hgiven
  | some y => rw [h y rfl]

theorem getD_of_held (h : ∀ y, given = some y → y = x) (hdefault : given.isSome = false → x = default) :
    given.getD default = x := by
  cases given with
  | none => exact (hdefault rfl).symm
  | some y => exact h y rfl

end

/-! ## Members -/

namespace MemberRecord

/-- The values that stand for an entry. A kind may be given as the only key of an object, and modifiers as any text
that stands for them. -/
inductive Entry.Told : Value → Entry → Prop
  | noKind : Told .null (.kind none)
  | kind (k : MemberKind) : Told (.string (some k.text)) (.kind (some k))
  | onlyKind (k : MemberKind) : Told (.object [(some k.text, .null)]) (.kind (some k))
  | modifiers {text : String} {m : Modifiers} (h : Modifiers.ofText text = .ok m) :
      Told (.string (some text)) (.modifiers m)
  | type (text : String) : Told (.string (some text)) (.type text)
  | name (text : String) : Told (.string (some text)) (.name text)
  | parameters (types : List String) :
      Told (.array (types.map fun type => .string (some type))) (.parameters types)
  | varargs (b : Bool) : Told (.boolean b) (.varargs b)
  | synthetic (b : Bool) : Told (.boolean b) (.synthetic b)
  | bridge (b : Bool) : Told (.boolean b) (.bridge b)

/-- What may be missing. The type and the name of a member may not. -/
def Entry.IsDefault : Entry → Prop
  | kind k => k = none
  | modifiers m => m = .empty
  | type _ => False
  | name _ => False
  | parameters types => types = []
  | varargs b => b = false
  | synthetic b => b = false
  | bridge b => b = false

def LaidOut (m : MemberRecord) (v : Value) : Prop :=
  Json.LaysOut Entry.key Entry.Told Entry.IsDefault m.entries v

def fieldKeys : List String :=
  ["kind", "modifiers", "type", "name", "parameters", "varargs", "synthetic", "bridge"]

def Faulty (v : Value) : Prop := Json.Faulty fieldKeys ["type", "name"] v

/-- What a draft has been given is what the member says. -/
structure Draft.HeldBy (m : MemberRecord) (d : Draft) : Prop where
  kind : ∀ x, d.kind = some x → x = m.kind
  modifiers : ∀ x, d.modifiers = some x → x = m.modifiers
  type : ∀ x, d.type = some x → x = m.type
  name : ∀ x, d.name = some x → x = m.name
  parameters : ∀ x, d.parameters = some x → x = m.parameters
  varargs : ∀ x, d.varargs = some x → x = m.varargs
  synthetic : ∀ x, d.synthetic = some x → x = m.synthetic
  bridge : ∀ x, d.bridge = some x → x = m.bridge

variable {m : MemberRecord} {d : Draft}

theorem Draft.HeldBy.enter (h : d.HeldBy m) {e : Entry} (he : e ∈ m.entries) :
    (e.enter d).HeldBy m := by
  simp only [entries, List.mem_cons, List.not_mem_nil, or_false] at he
  rcases he with rfl | rfl | rfl | rfl | rfl | rfl | rfl | rfl
  · exact { h with kind := fun _ hx => (Option.some.inj hx).symm }
  · exact { h with modifiers := fun _ hx => (Option.some.inj hx).symm }
  · exact { h with type := fun _ hx => (Option.some.inj hx).symm }
  · exact { h with name := fun _ hx => (Option.some.inj hx).symm }
  · exact { h with parameters := fun _ hx => (Option.some.inj hx).symm }
  · exact { h with varargs := fun _ hx => (Option.some.inj hx).symm }
  · exact { h with synthetic := fun _ hx => (Option.some.inj hx).symm }
  · exact { h with bridge := fun _ hx => (Option.some.inj hx).symm }

/-- A draft without anything but defaults left out is finished as the member. -/
theorem Draft.HeldBy.finish (h : d.HeldBy m)
    (hdefault : ∀ e ∈ m.entries, e.isGiven d = false → e.IsDefault) :
    (ofDraft d).toOption = some m := by
  simp only [entries, List.forall_mem_cons] at hdefault
  obtain ⟨hkind, hmodifiers, htype, hname, hparameters, hvarargs, hsynthetic, hbridge, -⟩ := hdefault
  rw [ofDraft, eq_some_of_held h.type htype, eq_some_of_held h.name hname]
  simp only [getD_of_held h.kind hkind, getD_of_held h.modifiers hmodifiers,
    getD_of_held h.parameters hparameters, getD_of_held h.varargs hvarargs,
    getD_of_held h.synthetic hsynthetic, getD_of_held h.bridge hbridge]
  rfl

theorem strings_told (types : List String) :
    (Value.array (types.map fun type => .string (some type))).list? Value.text? = some types :=
  Json.list?_of_forall₂ (List.forall₂_map_right_iff.mpr (List.forall₂_same.mpr fun _ _ => rfl))

theorem Entry.Told.column {v : Value} {e : Entry} (h : Told v e) :
    ∃ meaning, columns.lookup e.key = some meaning ∧ meaning v = some e := by
  cases h with
  | noKind => exact ⟨_, rfl, rfl⟩
  | kind k => exact ⟨_, rfl, by simp [MemberKind.ofValue?, MemberKind.variant?, k.ofText?_text]⟩
  | onlyKind k => exact ⟨_, rfl, by simp [MemberKind.ofValue?, MemberKind.variant?, k.ofText?_text]⟩
  | modifiers h => exact ⟨_, rfl, by simp [Modifiers.ofValue?, Value.text?, h, Except.toOption]⟩
  | type text => exact ⟨_, rfl, rfl⟩
  | name text => exact ⟨_, rfl, rfl⟩
  | parameters types => exact ⟨_, rfl, by simp [strings_told]⟩
  | varargs b => exact ⟨_, rfl, rfl⟩
  | synthetic b => exact ⟨_, rfl, rfl⟩
  | bridge b => exact ⟨_, rfl, rfl⟩

theorem describes (m : MemberRecord) :
    understood.Describes {} (fun d => (ofDraft d).toOption) Entry.Told Entry.IsDefault m.entries
      (Draft.HeldBy m) m where
  keys := rfl
  distinct := m.distinct_entries
  told _ _ h := h.column
  empty := isGiven_empty
  holds := ⟨nofun, nofun, nofun, nofun, nofun, nofun, nofun, nofun⟩
  enters _ _ he h := h.enter he
  finishes _ h hdefault := h.finish hdefault

theorem ofValue?_of_laidOut {v : Value} (h : m.LaidOut v) : ofValue? v = some m :=
  Json.RecordColumns.record?_of_laysOut m.describes h

theorem exists_key {k : String} (h : k ∈ fieldKeys) : ∃ e : Entry, e.key = k := by
  obtain ⟨e, -, rfl⟩ : ∃ e ∈ entries ⟨none, .empty, "", "", [], false, false, false⟩, e.key = k :=
    List.mem_map.mp h
  exact ⟨e, rfl⟩

theorem ofDraft_of_missing {e : Entry} (he : e.key ∈ ["type", "name"]) (hd : e.isGiven d = false) :
    (ofDraft d).toOption = none := by
  cases e with
  | type text =>
    have htype : d.type = none := by simpa [Entry.isGiven] using hd
    rw [ofDraft, htype]
    rfl
  | name text =>
    have hname : d.name = none := by simpa [Entry.isGiven] using hd
    rw [ofDraft, hname]
    cases d.type <;> rfl
  | _ => simp [Entry.key] at he

theorem ofValue?_of_faulty {v : Value} (h : Faulty v) : ofValue? v = none :=
  Json.RecordColumns.record?_of_faulty (r := understood) isGiven_empty (fun _ hk => exists_key hk)
    (by decide) (fun _ _ he hd => ofDraft_of_missing he hd) h

end MemberRecord

/-! ## Classes -/

namespace ClassRecord

/-- The values that stand for an entry. Each member of a list may have a layout of its own. -/
inductive Entry.Told : Value → Entry → Prop
  | name (text : String) : Told (.string (some text)) (.name text)
  | modifiers {text : String} {m : Modifiers} (h : Modifiers.ofText text = .ok m) :
      Told (.string (some text)) (.modifiers m)
  | fields {ms : List MemberRecord} {vs : List Value} (h : List.Forall₂ MemberRecord.LaidOut ms vs) :
      Told (.array vs) (.fields ms)
  | methods {ms : List MemberRecord} {vs : List Value} (h : List.Forall₂ MemberRecord.LaidOut ms vs) :
      Told (.array vs) (.methods ms)

/-- What may be missing. The name of a class may not. -/
def Entry.IsDefault : Entry → Prop
  | name _ => False
  | modifiers m => m = .empty
  | fields ms => ms = []
  | methods ms => ms = []

def LaidOut (c : ClassRecord) (v : Value) : Prop :=
  Json.LaysOut Entry.key Entry.Told Entry.IsDefault c.entries v

def fieldKeys : List String := ["name", "modifiers", "fields", "methods"]

/-- The values that lay out no class: the class itself is at fault, or a member in one of its lists. -/
inductive Faulty : Value → Prop
  | own {v : Value} (h : Json.Faulty fieldKeys ["name"] v) : Faulty v
  | member {es : List (Option String × Value)} {k : String} {vs : List Value} {v : Value}
      (hk : k ∈ ["fields", "methods"]) (h : (some k, .array vs) ∈ es) (hv : v ∈ vs)
      (hfaulty : MemberRecord.Faulty v) : Faulty (.object es)
  | listedMember {vs ms : List Value} {n : Nat} {v : Value} (hn : n ∈ [2, 3])
      (h : vs[n]? = some (.array ms)) (hv : v ∈ ms) (hfaulty : MemberRecord.Faulty v) :
      Faulty (.array vs)

/-- What a draft has been given is what the class says. -/
structure Draft.HeldBy (c : ClassRecord) (d : Draft) : Prop where
  name : ∀ x, d.name = some x → x = c.name
  modifiers : ∀ x, d.modifiers = some x → x = c.modifiers
  fields : ∀ x, d.fields = some x → x = c.fields
  methods : ∀ x, d.methods = some x → x = c.methods

variable {c : ClassRecord} {d : Draft}

theorem Draft.HeldBy.enter (h : d.HeldBy c) {e : Entry} (he : e ∈ c.entries) :
    (e.enter d).HeldBy c := by
  simp only [entries, List.mem_cons, List.not_mem_nil, or_false] at he
  rcases he with rfl | rfl | rfl | rfl
  · exact { h with name := fun _ hx => (Option.some.inj hx).symm }
  · exact { h with modifiers := fun _ hx => (Option.some.inj hx).symm }
  · exact { h with fields := fun _ hx => (Option.some.inj hx).symm }
  · exact { h with methods := fun _ hx => (Option.some.inj hx).symm }

/-- A draft without anything but defaults left out is finished as the class. -/
theorem Draft.HeldBy.finish (h : d.HeldBy c)
    (hdefault : ∀ e ∈ c.entries, e.isGiven d = false → e.IsDefault) :
    (ofDraft d).toOption = some c := by
  simp only [entries, List.forall_mem_cons] at hdefault
  obtain ⟨hname, hmodifiers, hfields, hmethods, -⟩ := hdefault
  rw [ofDraft, eq_some_of_held h.name hname]
  simp only [getD_of_held h.modifiers hmodifiers, getD_of_held h.fields hfields,
    getD_of_held h.methods hmethods]
  rfl

theorem members_told {ms : List MemberRecord} {vs : List Value}
    (h : List.Forall₂ MemberRecord.LaidOut ms vs) :
    (Value.array vs).list? MemberRecord.ofValue? = some ms :=
  Json.list?_of_forall₂ (h.imp fun _ _ => MemberRecord.ofValue?_of_laidOut)

theorem Entry.Told.column {v : Value} {e : Entry} (h : Told v e) :
    ∃ meaning, columns.lookup e.key = some meaning ∧ meaning v = some e := by
  cases h with
  | name text => exact ⟨_, rfl, rfl⟩
  | modifiers h => exact ⟨_, rfl, by simp [Modifiers.ofValue?, Value.text?, h, Except.toOption]⟩
  | fields h => exact ⟨_, rfl, by simp [members_told h]⟩
  | methods h => exact ⟨_, rfl, by simp [members_told h]⟩

theorem describes (c : ClassRecord) :
    understood.Describes {} (fun d => (ofDraft d).toOption) Entry.Told Entry.IsDefault c.entries
      (Draft.HeldBy c) c where
  keys := rfl
  distinct := c.distinct_entries
  told _ _ h := h.column
  empty := isGiven_empty
  holds := ⟨nofun, nofun, nofun, nofun⟩
  enters _ _ he h := h.enter he
  finishes _ h hdefault := h.finish hdefault

theorem ofValue?_of_laidOut {v : Value} (h : c.LaidOut v) : ofValue? v = some c :=
  Json.RecordColumns.record?_of_laysOut c.describes h

theorem exists_key {k : String} (h : k ∈ fieldKeys) : ∃ e : Entry, e.key = k := by
  obtain ⟨e, -, rfl⟩ : ∃ e ∈ entries ⟨"", .empty, [], []⟩, e.key = k := List.mem_map.mp h
  exact ⟨e, rfl⟩

theorem ofDraft_of_missing {e : Entry} (he : e.key ∈ ["name"]) (hd : e.isGiven d = false) :
    (ofDraft d).toOption = none := by
  cases e with
  | name text =>
    have hname : d.name = none := by simpa [Entry.isGiven] using hd
    rw [ofDraft, hname]
    rfl
  | _ => simp [Entry.key] at he

theorem classes_told {cs : List ClassRecord} {vs : List Value} (h : List.Forall₂ LaidOut cs vs) :
    (Value.array vs).list? ofValue? = some cs :=
  Json.list?_of_forall₂ (h.imp fun _ _ => ofValue?_of_laidOut)

/-- A list with a faulty member is neither fields nor methods. -/
theorem no_members {k : String} (hk : k ∈ ["fields", "methods"]) {vs : List Value} {v : Value}
    (hv : v ∈ vs) (hfaulty : MemberRecord.Faulty v) :
    ∃ meaning, columns.lookup k = some meaning ∧ meaning (.array vs) = none := by
  have hnone := Json.list?_eq_none hv (MemberRecord.ofValue?_of_faulty hfaulty)
  simp only [List.mem_cons, List.not_mem_nil, or_false] at hk
  rcases hk with rfl | rfl
  · exact ⟨_, rfl, by rw [hnone]; rfl⟩
  · exact ⟨_, rfl, by rw [hnone]; rfl⟩

theorem ofValue?_of_faulty {v : Value} (h : Faulty v) : ofValue? v = none := by
  cases h with
  | own h =>
    exact Json.RecordColumns.record?_of_faulty (r := understood) isGiven_empty
      (fun _ hk => exists_key hk) (by decide) (fun _ _ he hd => ofDraft_of_missing he hd) h
  | @member es k vs v hk h hv hfaulty =>
    obtain ⟨meaning, hlookup, hnone⟩ := no_members hk hv hfaulty
    rw [ofValue?, Json.RecordColumns.record?, Json.RecordColumns.draft?_eq_none hlookup hnone h]
    rfl
  | @listedMember vs ms n v hn h hv hfaulty =>
    obtain ⟨k, hk, hkey⟩ : ∃ k ∈ ["fields", "methods"],
        (understood.columns.map fun c => some c.1)[n]? = some (some k) := by
      simp only [List.mem_cons, List.not_mem_nil, or_false] at hn
      rcases hn with rfl | rfl
      · exact ⟨"fields", by simp, rfl⟩
      · exact ⟨"methods", by simp, rfl⟩
    obtain ⟨meaning, hlookup, hnone⟩ := no_members hk hv hfaulty
    have hmem : (some k, Value.array ms) ∈ understood.labelled vs :=
      List.mem_of_getElem? (List.getElem?_zip_eq_some.mpr ⟨hkey, h⟩)
    rw [ofValue?, Json.RecordColumns.record?, Json.RecordColumns.draft?_eq_none hlookup hnone hmem]
    exact ite_self _

theorem listOfJson_of_laidOut {cs : List ClassRecord} {vs : List Value} {text : Bytes}
    (hcs : List.Forall₂ LaidOut cs vs) (ht : (Value.array vs).HasText text) :
    listOfJson text = .ok cs :=
  Json.eq_ok ((listOfJson_eq ht).trans (classes_told hcs))

theorem listOfJson_of_faulty {vs : List Value} {text : Bytes} (hvs : ∃ v ∈ vs, Faulty v)
    (ht : (Value.array vs).HasText text) : ∃ e, listOfJson text = .error e := by
  obtain ⟨v, hmem, hv⟩ := hvs
  exact Json.exists_error
    ((listOfJson_eq ht).trans (Json.list?_eq_none hmem (ofValue?_of_faulty hv)))

end ClassRecord

end ClassListing
