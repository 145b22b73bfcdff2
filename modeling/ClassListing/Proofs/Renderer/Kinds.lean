import ClassListing.Proofs.ClassRecord.Checking
import ClassListing.Proofs.Renderer.Rows

/-!
# Listings and the kinds of members

Each kind of member has a filter, and the listings under these filters divide the listing of all members. In a
class that comes from a record the fields make up the first part of it. Signature lines show no field,
wherever it stands.
-/

namespace ClassListing

set_option autoImplicit false

/-! ## Filters for kinds -/

def MemberKind.memberFilter : MemberKind → MemberFilter
  | field => .field
  | method => .method
  | constructor => .init
  | staticInitializer => .clinit

theorem MemberKind.accepts_memberFilter (k : MemberKind) (m : Member) :
    k.memberFilter.accepts m = decide (m.kind = k) := by
  cases k <;> rfl

theorem MemberKind.memberFilter_injective {k l : MemberKind}
    (h : k.memberFilter = l.memberFilter) : k = l := by
  revert h
  cases k <;> cases l <;> decide

/-- The filters for the kinds of executables. -/
def MemberFilter.executableKinds : List MemberFilter := [.method, .init, .clinit]

theorem MemberFilter.mem_executableKinds_iff {f : MemberFilter} :
    f ∈ executableKinds ↔ ∃ k : MemberKind, k ≠ .field ∧ k.memberFilter = f := by
  constructor
  · intro h
    simp only [executableKinds, List.mem_cons, List.not_mem_nil, or_false] at h
    rcases h with rfl | rfl | rfl
    · exact ⟨.method, by decide, rfl⟩
    · exact ⟨.constructor, by decide, rfl⟩
    · exact ⟨.staticInitializer, by decide, rfl⟩
  · rintro ⟨k, hk, rfl⟩
    cases k with
    | field => exact absurd rfl hk
    | method => decide
    | constructor => decide
    | staticInitializer => decide

namespace JavaClass

variable {c : JavaClass}

theorem Grouped.filter_field (h : c.Grouped) :
    c.members.filter MemberFilter.field.accepts = c.fields := by
  have hfields : c.fields.filter MemberFilter.field.accepts = c.fields :=
    List.filter_eq_self.mpr fun m hm => decide_eq_true (h.fields m hm)
  have hmethods : c.methods.filter MemberFilter.field.accepts = [] :=
    List.filter_eq_nil_iff.mpr fun m hm hf => h.methods m hm (of_decide_eq_true hf)
  rw [members, List.filter_append, hfields, hmethods, List.append_nil]

theorem Grouped.filter_executable (h : c.Grouped) :
    c.members.filter MemberFilter.executable.accepts = c.methods := by
  have hfields : c.fields.filter MemberFilter.executable.accepts = [] :=
    List.filter_eq_nil_iff.mpr fun m hm hf => m.isExecutable_iff.mp hf (h.fields m hm)
  have hmethods : c.methods.filter MemberFilter.executable.accepts = c.methods :=
    List.filter_eq_self.mpr fun m hm => m.isExecutable_iff.mpr (h.methods m hm)
  rw [members, List.filter_append, hfields, hmethods, List.nil_append]

theorem Grouped.filter_memberFilter (h : c.Grouped) {k : MemberKind} (hk : k ≠ .field) :
    c.members.filter k.memberFilter.accepts = c.methods.filter fun m => decide (m.kind = k) := by
  have haccepts : k.memberFilter.accepts = fun m => decide (m.kind = k) :=
    funext k.accepts_memberFilter
  have hfields : c.fields.filter (fun m => decide (m.kind = k)) = [] := by
    apply List.filter_eq_nil_iff.mpr
    intro m hm hkind
    rw [h.fields m hm] at hkind
    exact hk (of_decide_eq_true hkind).symm
  rw [haccepts, members, List.filter_append, hfields, List.nil_append]

/-- The executables, each with the filter for its kind. The labels divide the places in the list, so that
equal members count as often as they stand there. -/
def labelled (c : JavaClass) : List (MemberFilter × Member) :=
  c.methods.map fun m => (m.kind.memberFilter, m)

theorem map_snd_labelled (c : JavaClass) : c.labelled.map Prod.snd = c.methods := by
  simp [labelled, Function.comp_def]

theorem labelled_mem_executableKinds (h : c.Grouped) :
    ∀ p ∈ c.labelled, p.1 ∈ MemberFilter.executableKinds := by
  intro p hp
  obtain ⟨m, hm, rfl⟩ := List.mem_map.mp hp
  exact MemberFilter.mem_executableKinds_iff.mpr ⟨m.kind, h.methods m hm, rfl⟩

theorem filter_labelled (c : JavaClass) (k : MemberKind) :
    (c.labelled.filter fun p => decide (p.1 = k.memberFilter)).map Prod.snd =
      c.methods.filter fun m => decide (m.kind = k) := by
  have hlabel : ∀ l : MemberKind, l.memberFilter = k.memberFilter ↔ l = k :=
    fun l => ⟨MemberKind.memberFilter_injective, fun h => h ▸ rfl⟩
  simp [labelled, List.filter_map, Function.comp_def, hlabel]

end JavaClass

namespace Renderer

/-! ## CSV under the filters -/

theorem shows_of_mem_formats {format : Option (Filter Member) → Renderer}
    (h : format ∈ [csv, detailedCsv]) :
    ∃ row : Member → String, (∀ caller m, (format caller).renderMember m = .ok (row m)) ∧
      ∀ caller c, (format caller).Shows c row (listedMembers caller c) := by
  simp only [List.mem_cons, List.not_mem_nil, or_false] at h
  rcases h with rfl | rfl
  · exact ⟨csvRow, fun _ _ => rfl, shows_csv⟩
  · exact ⟨detailRow, fun _ _ => rfl, shows_detailedCsv⟩

theorem listedExecutables_of_kind {caller : Option (Filter Member)}
    (h : caller ∈ [none, some MemberFilter.all.filter, some MemberFilter.executable.filter])
    (c : JavaClass) :
    (∀ f ∈ caller, f.Identified) ∧
      listedExecutables caller c = c.members.filter Member.isExecutable := by
  simp only [List.mem_cons, List.not_mem_nil, or_false] at h
  rcases h with rfl | rfl | rfl
  · exact ⟨nofun, rfl⟩
  · refine ⟨?_, rfl⟩
    rintro f ⟨⟩
    exact MemberFilter.identified .all
  · refine ⟨?_, List.filter_congr fun m _ => Bool.and_self m.isExecutable⟩
    rintro f ⟨⟩
    exact MemberFilter.identified .executable

/-- In a class that a record gives, the CSV listing of all members is the listing of its fields followed by the
one of its executables. The listings of methods, constructors and static initializers divide the
executables: each executable has the filter of one of them, and each of them keeps the order. Signature
lines are the same for all members and for the executables. -/
theorem listings_divide_by_kind {record : ClassRecord} {c : JavaClass}
    (h : record.toClass = .ok c) :
    (∀ format ∈ [csv, detailedCsv],
      ∃ (row : Member → String) (shown : MemberFilter → List Member) (text : MemberFilter → String),
        (∀ caller m, (format caller).renderMember m = .ok (row m)) ∧
          (∀ f : MemberFilter, (format (some f.filter)).Shows c row (shown f)) ∧
          (∀ f : MemberFilter, ∃ t, (format (some f.filter)).render c = .ok t ∧
            t.getD "" = text f) ∧
          text .all = text .field ++ text .executable ∧
          shown .field = c.fields ∧ shown .executable = c.methods ∧
          ∃ labelled : List (MemberFilter × Member), labelled.map Prod.snd = c.methods ∧
            (∀ p ∈ labelled, p.1 ∈ [MemberFilter.method, .init, .clinit]) ∧
            ∀ f ∈ [MemberFilter.method, .init, .clinit],
              shown f = (labelled.filter fun p => p.1 = f).map Prod.snd) ∧
      ∃ t, ∀ caller ∈ [none, some MemberFilter.all.filter, some MemberFilter.executable.filter],
        ∀ free, (signatures caller free).1.render c = .ok t := by
  have hg := ClassRecord.grouped_of_toClass h
  constructor
  · intro format hformat
    obtain ⟨row, hrow, hshows⟩ := shows_of_mem_formats hformat
    let shown (f : MemberFilter) : List Member := c.members.filter f.accepts
    have hshown : ∀ f : MemberFilter, (format (some f.filter)).Shows c row (shown f) :=
      fun f => hshows (some f.filter) c
    refine ⟨row, shown, fun f => String.join ((shown f).map row), hrow, hshown,
      fun f => (hshown f).exists_text, ?_, hg.filter_field, hg.filter_executable, c.labelled,
      c.map_snd_labelled, JavaClass.labelled_mem_executableKinds hg, ?_⟩
    · have hall : shown .all = c.fields ++ c.methods := List.filter_eq_self.mpr fun _ _ => rfl
      have hfield : shown .field = c.fields := hg.filter_field
      have hexecutable : shown .executable = c.methods := hg.filter_executable
      simp only [hall, hfield, hexecutable, List.map_append, String.join_append]
    · intro f hf
      obtain ⟨k, hk, rfl⟩ := MemberFilter.mem_executableKinds_iff.mp hf
      rw [c.filter_labelled k]
      exact hg.filter_memberFilter hk
  · let shown := c.members.filter Member.isExecutable
    refine ⟨if shown = [] then none else some (String.join (shown.map signatureLine)), ?_⟩
    intro caller hcaller free
    -- what the caller's filter accepts makes no difference here, as all three accept the executables
    obtain ⟨hidentified, hlisted⟩ := listedExecutables_of_kind hcaller c
    rw [(shows_signatures hidentified free c).text, hlisted]

/-- Kinds that are given and kinds that are found from names. -/
theorem executables_of_all_kinds_divide :
    let member (kind : Option MemberKind) (name : String) : MemberRecord :=
      ⟨kind, .empty, "int", name, [], false, false, false⟩
    let record : ClassRecord := ⟨"p.A", .empty, [member none "<init>"], [member none "<init>",
      member none "run", member (some .method) "<init>", member none "<clinit>"]⟩
    ∃ c, record.toClass = .ok c ∧
      c.methods.map Member.kind = [.constructor, .method, .method, .staticInitializer] ∧
      (∃ all field executable,
        (csv (some MemberFilter.all.filter)).render c = .ok all ∧
          (csv (some MemberFilter.field.filter)).render c = .ok field ∧
          (csv (some MemberFilter.executable.filter)).render c = .ok executable ∧
          all.getD "" = field.getD "" ++ executable.getD "") ∧
      ∃ t, (signatures none FilterScope.firstFree).1.render c = .ok t ∧
        (signatures (some MemberFilter.all.filter) FilterScope.firstFree).1.render c = .ok t := by
  intro member record
  have hclass : record.toClass = .ok record.described := by decide +kernel
  obtain ⟨hcsv, t, hsignatures⟩ := listings_divide_by_kind hclass
  obtain ⟨row, shown, text, -, -, htext, happend, -⟩ := hcsv csv (by simp)
  refine ⟨record.described, hclass, by decide +kernel, ?_, t, ?_, ?_⟩
  · obtain ⟨all, hall, hallText⟩ := htext .all
    obtain ⟨field, hfield, hfieldText⟩ := htext .field
    obtain ⟨executable, hexecutable, hexecutableText⟩ := htext .executable
    refine ⟨all, field, executable, hall, hfield, hexecutable, ?_⟩
    rw [hallText, hfieldText, hexecutableText, happend]
  · exact hsignatures none (by simp) _
  · exact hsignatures (some MemberFilter.all.filter) (by simp) _

/-! ## Signature lines -/

/-- Whatever the filter of the caller, and wherever fields stand in the class, signature lines are those of the
members that the filter accepts and that are no fields, each with a blank at its end. There is no text
exactly if no executable is accepted. A line is refused for fields and for nothing else. -/
theorem signature_lines_leave_fields_out {caller : Option (Filter Member)}
    (hc : ∀ f ∈ caller, f.Identified) (free : Nat) (c : JavaClass) :
    let r := (signatures caller free).1
    let accepts (m : Member) : Bool := caller.all fun f => f.accept m
    let listed := c.members.filter fun m => accepts m && decide (m.kind ≠ .field)
    (∃ t, r.render c = .ok t ∧
      (t = none ↔ ∀ m ∈ c.members, m.isExecutable = true → accepts m = false) ∧
      ∀ text, t = some text → ∃ lines : List String, text = String.join lines ∧
        List.Forall₂ (fun m line => r.renderMember m = .ok line ∧ ∃ s, line = s ++ "> " ++ lineEnd)
          listed lines) ∧
      (r.calls c).filterMap Call.rendered? = listed ∧
      ∀ m e, r.renderMember m = .error e ↔
        m.kind = .field ∧ e = .unsupportedMember "PscoutFormatter" .field := by
  intro r accepts listed
  have hlisted : listedExecutables caller c = listed := by
    apply List.filter_congr
    intro m _
    rw [Bool.eq_iff_iff, Bool.and_eq_true, Bool.and_eq_true, decide_eq_true_iff, m.isExecutable_iff]
  have hshows : r.Shows c signatureLine listed := hlisted ▸ shows_signatures hc free c
  refine ⟨⟨_, hshows.text, ?_, ?_⟩, hshows.rendered, ?_⟩
  · have hnil : listed = [] ↔ ∀ m ∈ c.members, m.isExecutable = true → accepts m = false := by
      simp only [listed, List.filter_eq_nil_iff, Bool.and_eq_true, decide_eq_true_iff,
        Member.isExecutable_iff]
      grind
    simpa using hnil
  · intro text htext
    have hjoin : text = String.join (listed.map signatureLine) := by
      split at htext
      · cases htext
      · exact (Option.some.inj htext).symm
    refine ⟨_, hjoin, List.forall₂_map_right_iff.mpr (List.forall₂_same.mpr ?_)⟩
    intro m hm
    have hkind := (List.mem_filter.mp hm).2
    rw [Bool.and_eq_true, decide_eq_true_iff] at hkind
    refine ⟨?_, "<" ++ m.declaring.name ++ ": " ++ m.signature, rfl⟩
    rw [renderMember_signatures, isField_of_isExecutable (m.isExecutable_iff.mpr hkind.2)]
    rfl
  · intro m e
    rw [renderMember_signatures, Member.isField]
    by_cases hk : m.kind = .field
    · simp [hk, eq_comm]
    · simp [hk]

/-- A field among the executables has no line, and an executable among the fields has one. -/
theorem misplaced_field_has_no_line :
    let info : ClassInfo := ⟨"p.A", .empty⟩
    let member (kind : MemberKind) (name : String) : Member :=
      ⟨info, kind, .empty, "int", name, [], false, false, false⟩
    let c : JavaClass := ⟨info, [member .field "x", member .method "run"],
      [member .field "y", member .method "stop", member .constructor "<init>"]⟩
    let caller : Option (Filter Member) :=
      some (.leaf FilterScope.firstFree ⟨"RUNNING", fun m => m.name ≠ "stop"⟩)
    let r := (signatures caller (FilterScope.firstFree + 1)).1
    (∀ f ∈ caller, f.Identified) ∧ (∃ text, r.render c = .ok (some text)) ∧
      (r.calls c).filterMap Call.rendered? = [member .method "run", member .constructor "<init>"] := by
  intro info member c caller r
  have hc : ∀ f ∈ caller, f.Identified := by
    intro f hf
    cases Option.mem_some.mp hf
    exact Filter.identified_of_le (Nat.le_refl _)
  obtain ⟨⟨t, hrender, hnone, -⟩, hrendered, -⟩ :=
    signature_lines_leave_fields_out hc (FilterScope.firstFree + 1) c
  refine ⟨hc, ?_, hrendered.trans (by decide +kernel)⟩
  cases t with
  | some text => exact ⟨text, hrender⟩
  | none =>
    have hrun := hnone.mp rfl (member .method "run") (by decide +kernel) rfl
    exact absurd hrun (by decide +kernel)

end Renderer

end ClassListing
