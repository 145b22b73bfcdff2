import ClassListing.ClassRecord

/-!
# Which class records are malformed

A record is refused if a name in it is empty or a member stands in the wrong group, and for no other reason.
The faults of a record are listed in the order class, fields, methods, and the first one is the error. A
record without faults gives a class that has everything the record says.
-/

namespace ClassListing

set_option autoImplicit false

def MemberRecord.isMalformed (g : Group) (m : MemberRecord) : Bool :=
  m.name = "" || m.kind.any fun k => !g.admits k

/-- A name is empty, or a member is listed in a group that does not admit its kind. -/
def ClassRecord.isMalformed (r : ClassRecord) : Bool :=
  r.name = "" || r.fields.any (·.isMalformed .fields) || r.methods.any (·.isMalformed .methods)

/-! ## Groups -/

theorem Group.admits_fields_iff (k : MemberKind) : fields.admits k = true ↔ k = .field := by
  simp [admits, ← Bool.not_eq_true, MemberKind.isExecutable_iff]

theorem Group.admits_methods_iff (k : MemberKind) : methods.admits k = true ↔ k ≠ .field :=
  k.isExecutable_iff

/-! ## Members -/

namespace MemberRecord

/-- What is wrong with a member of a group. That it has no name counts before its kind. -/
def fault? (className : String) (g : Group) (m : MemberRecord) : Option Malformed :=
  if m.name = "" then some (.unnamedMember className)
  else (m.kind.filter fun k => !g.admits k).map fun k => .wrongGroup k m.name className

def kindIn (g : Group) (m : MemberRecord) : MemberKind := m.kind.getD (g.defaultKind m.name)

/-- The member that a class has for a record. -/
def heldBy (info : ClassInfo) (kind : MemberKind) (m : MemberRecord) : Member :=
  ⟨info, kind, m.modifiers, m.type, m.name, m.parameters, m.varargs, m.synthetic, m.bridge⟩

variable {g : Group} {m : MemberRecord}

theorem fault?_eq_none_iff {className : String} :
    m.fault? className g = none ↔ m.isMalformed g = false := by
  unfold fault? isMalformed
  by_cases hn : m.name = ""
  · simp [hn]
  · cases hk : m.kind with
    | none => simp [hn]
    | some k => by_cases ha : g.admits k <;> simp [hn, ha, Option.filter]

theorem toMember_eq (info : ClassInfo) (g : Group) (m : MemberRecord) :
    m.toMember info g =
      match m.fault? info.name g with
      | some e => .error e
      | none => .ok (m.heldBy info (m.kindIn g)) := by
  unfold toMember fault? kindIn
  by_cases hn : m.name = ""
  · simp [hn]
  · cases hk : m.kind with
    | none => simp [hn, Group.admits_defaultKind, heldBy]
    | some k => by_cases ha : g.admits k <;> simp [hn, ha, Option.filter, heldBy]

theorem toMembers_eq (info : ClassInfo) (g : Group) (ms : List MemberRecord) :
    toMembers info g ms =
      match (ms.filterMap (fault? info.name g)).head? with
      | some e => .error e
      | none => .ok (ms.map fun m => m.heldBy info (m.kindIn g)) := by
  induction ms with
  | nil => rfl
  | cons m ms ih =>
    rw [toMembers, toMember_eq, ih]
    cases hm : m.fault? info.name g with
    | some e => simp [hm]
    | none =>
      simp only [List.filterMap_cons, hm, List.map_cons]
      cases (ms.filterMap (fault? info.name g)).head? <;> rfl

theorem admits_kindIn (h : m.isMalformed g = false) : g.admits (m.kindIn g) := by
  rw [isMalformed, Bool.or_eq_false_iff] at h
  unfold kindIn
  cases hk : m.kind with
  | none => exact g.admits_defaultKind m.name
  | some k => simpa [hk] using h.2

theorem isMalformed_eq_false_iff :
    m.isMalformed g = false ↔ m.name ≠ "" ∧ ∀ k, m.kind = some k → g.admits k = true := by
  unfold isMalformed
  cases m.kind <;> simp

end MemberRecord

/-! ## Classes -/

/-- Fields and executables stand in lists of their own. -/
structure JavaClass.Grouped (c : JavaClass) : Prop where
  fields : ∀ m ∈ c.fields, m.kind = .field
  methods : ∀ m ∈ c.methods, m.kind ≠ .field

namespace ClassRecord

variable {r : ClassRecord} {c : JavaClass}

/-- All that is wrong with a record: the class, then its fields, then its methods. -/
def faults (r : ClassRecord) : List Malformed :=
  (if r.name = "" then [.unnamedClass] else []) ++
    r.fields.filterMap (·.fault? r.name .fields) ++ r.methods.filterMap (·.fault? r.name .methods)

/-- The class that a record describes. All members have the same information on their class. -/
def described (r : ClassRecord) : JavaClass where
  info := r.info
  fields := r.fields.map fun f => f.heldBy r.info (f.kindIn .fields)
  methods := r.methods.map fun m => m.heldBy r.info (m.kindIn .methods)

theorem toClass_eq (r : ClassRecord) :
    r.toClass =
      match r.faults.head? with
      | some e => .error e
      | none => .ok r.described := by
  have hi : r.info.name = r.name := rfl
  unfold toClass faults described
  rw [MemberRecord.toMembers_eq, MemberRecord.toMembers_eq, hi]
  by_cases hn : r.name = ""
  · simp [hn]
  · -- the methods are looked at only if no field is at fault
    simp only [hn, if_false, List.nil_append, List.head?_append]
    cases (r.fields.filterMap (·.fault? r.name .fields)).head? with
    | some e => rfl
    | none => cases (r.methods.filterMap (·.fault? r.name .methods)).head? <;> rfl

theorem toClass_eq_ok_iff : r.toClass = .ok c ↔ r.faults = [] ∧ r.described = c := by
  rw [toClass_eq]
  cases r.faults <;> simp

theorem name_of_toClass (h : r.toClass = .ok c) : c.name = r.name := by
  obtain ⟨-, rfl⟩ := toClass_eq_ok_iff.mp h
  rfl

theorem toClass_eq_error_iff {e : Malformed} : r.toClass = .error e ↔ r.faults.head? = some e := by
  rw [toClass_eq]
  cases r.faults <;> simp

theorem faults_eq_nil_iff : r.faults = [] ↔ r.isMalformed = false := by
  simp only [faults, isMalformed, List.append_eq_nil_iff, List.filterMap_eq_nil_iff,
    MemberRecord.fault?_eq_none_iff, Bool.or_eq_false_iff, List.any_eq_false, Bool.not_eq_true]
  simp

theorem exists_toClass_iff : (∃ c, r.toClass = .ok c) ↔ r.isMalformed = false := by
  simp [toClass_eq_ok_iff, faults_eq_nil_iff]

/-- Every name is there, and no member has the kind of the other group. -/
structure Consistent (r : ClassRecord) : Prop where
  name : r.name ≠ ""
  fields : ∀ f ∈ r.fields, f.name ≠ "" ∧ (f.kind = none ∨ f.kind = some .field)
  methods : ∀ m ∈ r.methods, m.name ≠ "" ∧ m.kind ≠ some .field

theorem isMalformed_eq_false_iff : r.isMalformed = false ↔ r.Consistent := by
  have hfield : ∀ k : Option MemberKind,
      (∀ j, k = some j → j = .field) ↔ k = none ∨ k = some .field := by
    rintro (_ | k) <;> simp
  have hmethod : ∀ k : Option MemberKind, (∀ j, k = some j → j ≠ .field) ↔ k ≠ some .field := by
    rintro (_ | k) <;> simp
  simp only [isMalformed, Bool.or_eq_false_iff, List.any_eq_false, Bool.not_eq_true,
    MemberRecord.isMalformed_eq_false_iff, Group.admits_fields_iff, Group.admits_methods_iff,
    hfield, hmethod, decide_eq_false_iff_not]
  constructor
  · rintro ⟨⟨hname, hfields⟩, hmethods⟩
    exact ⟨hname, hfields, hmethods⟩
  · rintro ⟨hname, hfields, hmethods⟩
    exact ⟨⟨hname, hfields⟩, hmethods⟩

theorem grouped_of_toClass (h : r.toClass = .ok c) : c.Grouped := by
  obtain ⟨hfaults, rfl⟩ := toClass_eq_ok_iff.mp h
  have hm := faults_eq_nil_iff.mp hfaults
  simp only [isMalformed, Bool.or_eq_false_iff, List.any_eq_false, Bool.not_eq_true] at hm
  obtain ⟨⟨-, hfields⟩, hmethods⟩ := hm
  constructor
  · intro x hx
    obtain ⟨f, hf, rfl⟩ := List.mem_map.mp hx
    exact (Group.admits_fields_iff _).mp (MemberRecord.admits_kindIn (hfields f hf))
  · intro x hx
    obtain ⟨m, hmem, rfl⟩ := List.mem_map.mp hx
    exact (Group.admits_methods_iff _).mp (MemberRecord.admits_kindIn (hmethods m hmem))

/-- A record gives a class exactly if it is consistent. The class has all the record says: fields are of
the kind of fields, and an executable without a kind has the one of its name. The error of any
other record is its first fault. -/
theorem consistent_records_give_classes (r : ClassRecord) :
    ((∃ c, r.toClass = .ok c) ↔ r.Consistent) ∧
      (∀ c, r.toClass = .ok c →
        c.info = ⟨r.name, r.modifiers⟩ ∧
          c.fields = r.fields.map (fun f => f.heldBy c.info .field) ∧
          c.methods = r.methods.map (fun m => m.heldBy c.info (m.kind.getD
            (if m.name = "<init>" then .constructor
              else if m.name = "<clinit>" then .staticInitializer
              else .method))) ∧
          (∀ m ∈ c.methods, m.isExecutable) ∧
          ∀ m ∈ c.members, m.declaring = c.info) ∧
      ∀ e, r.toClass = .error e ↔ r.faults.head? = some e := by
  refine ⟨exists_toClass_iff.trans isMalformed_eq_false_iff, ?_, fun e => toClass_eq_error_iff⟩
  intro c h
  have hg := grouped_of_toClass h
  obtain ⟨-, rfl⟩ := toClass_eq_ok_iff.mp h
  refine ⟨rfl, ?_, rfl, ?_, ?_⟩
  · apply List.map_congr_left
    intro f hf
    have hkind : f.kindIn .fields = .field := hg.fields _ (List.mem_map_of_mem hf)
    rw [hkind]
    rfl
  · intro m hm
    exact m.isExecutable_iff.mpr (hg.methods m hm)
  · intro m hm
    rcases List.mem_append.mp hm with hm | hm
    · obtain ⟨f, -, rfl⟩ := List.mem_map.mp hm
      rfl
    · obtain ⟨f, -, rfl⟩ := List.mem_map.mp hm
      rfl

end ClassRecord

end ClassListing
