import ClassListing.Proofs.Modifiers.Words
import ClassListing.Proofs.Renderer.Signatures

/-!
# Detailed rows can be read back

A row has quotation marks around every column that may hold any text, so it is cut at them. What a row
says of the modifiers is the access word that takes precedence and a set of other flags; this and the other
columns are all that a row depends on.
-/

namespace ClassListing

set_option autoImplicit false

/-! ## What a row says -/

/-- The flags of modifiers but for some, in the order of their declaration. -/
def Modifiers.flagsBut (m : Modifiers) (omitted : List Flag) : List Flag :=
  Flag.all.filter fun f => m.has f && decide (f ∉ omitted)

structure ExecutableDetail where
  varargs : Bool
  synthetic : Bool
  bridge : Bool
  parameters : List String
  deriving DecidableEq, Repr

structure DetailRecord where
  classAccess : Option Flag
  classFlags : List Flag
  className : String
  access : Option Flag
  flags : List Flag
  /-- Constructors and static initializers have the type `void`. -/
  type : String
  name : String
  /-- Absent for fields. -/
  executable : Option ExecutableDetail
  deriving DecidableEq, Repr

/-- On classes and on executables some bits have other meanings, and a synthetic member does not show
it. -/
def Member.detailRecord (m : Member) : DetailRecord where
  classAccess := m.declaring.modifiers.leadingAccess
  classFlags := m.declaring.modifiers.flagsBut (Flag.accessOrder ++ [.synchronized, .synthetic])
  className := m.declaring.name
  access := m.modifiers.leadingAccess
  flags := m.modifiers.flagsBut
    (Flag.accessOrder ++ if m.isField then [.synthetic] else [.transient, .volatile, .synthetic])
  type := m.returnType
  name := m.name
  executable :=
    if m.isField then none else some ⟨m.varargs, m.synthetic, m.bridge, m.parameters⟩

namespace DetailRecord

def ofPieces? : List (List Char) → Option DetailRecord
  | tag :: classAccess :: [','] :: classFlags :: [','] :: className :: [','] :: access :: [','] ::
      flags :: [','] :: type :: [','] :: name :: rest =>
    let record (e : Option ExecutableDetail) : DetailRecord :=
      { classAccess := Flag.accessOrder.find? (Flag.shownIn classAccess)
        classFlags := Flag.all.filter (Flag.shownIn classFlags)
        className := String.ofList className
        access := Flag.accessOrder.find? (Flag.shownIn access)
        flags := Flag.all.filter (Flag.shownIn flags)
        type := String.ofList type
        name := String.ofList name
        executable := e }
    match tag, rest with
    | ['F', ','], [[]] => some (record none)
    | ['M', ','], [[',', varargs, ',', synthetic, ',', bridge, ','], parameters, []] =>
      some (record (some ⟨varargs = '1', synthetic = '1', bridge = '1',
        (Text.items ',' parameters).map String.ofList⟩))
    | _, _ => none
  | _ => none

def ofRow? (row : List Char) : Option DetailRecord := ofPieces? (Text.split '"' row)

def listOfText? (text : String) : Option (List DetailRecord) :=
  (Text.rows text.toList).mapM ofRow?

end DetailRecord

/-- No name or type that a row shows holds a quotation mark or a line feed. -/
structure Member.Quotable (m : Member) : Prop where
  className : '"' ∉ m.declaring.name.toList ∧ '\n' ∉ m.declaring.name.toList
  type : '"' ∉ m.returnType.toList ∧ '\n' ∉ m.returnType.toList
  name : '"' ∉ m.name.toList ∧ '\n' ∉ m.name.toList
  parameters : m.isField = false → ∀ p ∈ m.parameters,
    p ≠ "" ∧ ',' ∉ p.toList ∧ '"' ∉ p.toList ∧ '\n' ∉ p.toList

instance (m : Member) : Decidable m.Quotable :=
  decidable_of_iff
    (('"' ∉ m.declaring.name.toList ∧ '\n' ∉ m.declaring.name.toList) ∧
      ('"' ∉ m.returnType.toList ∧ '\n' ∉ m.returnType.toList) ∧
      ('"' ∉ m.name.toList ∧ '\n' ∉ m.name.toList) ∧
      (m.isField = false → ∀ p ∈ m.parameters,
        p ≠ "" ∧ ',' ∉ p.toList ∧ '"' ∉ p.toList ∧ '\n' ∉ p.toList))
    ⟨fun ⟨hc, ht, hn, hp⟩ => ⟨hc, ht, hn, hp⟩, fun ⟨hc, ht, hn, hp⟩ => ⟨hc, ht, hn, hp⟩⟩

namespace Renderer

variable {m : Member}

/-! ## The modifiers in a row -/

theorem has_classOther (c : ClassInfo) (f : Flag) :
    (classOther c).has f =
      (c.modifiers.has f && decide (f ∉ Flag.accessOrder) && decide (f ≠ .synchronized)) := by
  rw [classOther, Modifiers.has_diff, Modifiers.has_nonAccess, Modifiers.has_ofFlag]
  simp [eq_comm]

theorem has_memberOther (m : Member) (f : Flag) :
    (memberOther m).has f = (m.modifiers.has f && decide (f ∉ Flag.accessOrder) &&
      (m.isField || decide (f ≠ .transient) && decide (f ≠ .volatile))) := by
  unfold memberOther
  cases hf : m.isField with
  | true => simp [Modifiers.has_nonAccess]
  | false =>
    simp [Modifiers.has_diff, Modifiers.has_union, Modifiers.has_nonAccess, Modifiers.has_ofFlag,
      eq_comm]

theorem filter_shownIn_classOther (c : ClassInfo) :
    Flag.all.filter (Flag.shownIn (classOther c).render.toList) =
      c.modifiers.flagsBut (Flag.accessOrder ++ [.synchronized, .synthetic]) := by
  have ha : ∀ f ∈ Flag.accessOrder, (classOther c).has f = false := by
    intro f hf
    simp [has_classOther, hf]
  rw [Flag.filter_shownIn ha]
  apply List.filter_congr
  intro f _
  simp [has_classOther, Bool.and_assoc]

theorem filter_shownIn_memberOther (m : Member) :
    Flag.all.filter (Flag.shownIn (memberOther m).render.toList) = m.detailRecord.flags := by
  have ha : ∀ f ∈ Flag.accessOrder, (memberOther m).has f = false := by
    intro f hf
    simp [has_memberOther, hf]
  rw [Flag.filter_shownIn ha]
  simp only [Member.detailRecord, Modifiers.flagsBut]
  apply List.filter_congr
  intro f _
  rw [has_memberOther]
  cases hf : m.isField with
  | true => simp [Bool.and_assoc]
  | false => simp [Bool.and_assoc]

/-! ## Cutting a row -/

def bitChar (b : Bool) : Char := if b then '1' else '0'

/-- A row between its quotation marks. -/
def detailPieces (m : Member) : List (List Char) :=
  [if m.isField then 'F' else 'M', ','] :: m.declaring.modifiers.access.render.toList :: [','] ::
    (classOther m.declaring).render.toList :: [','] :: m.declaring.name.toList :: [','] ::
    m.modifiers.access.render.toList :: [','] :: (memberOther m).render.toList :: [','] ::
    m.returnType.toList :: [','] :: m.name.toList ::
    if m.isField then [[]]
    else [[',', bitChar m.varargs, ',', bitChar m.synthetic, ',', bitChar m.bridge, ','],
      m.parameterList.toList, []]

theorem toList_bit (b : Bool) : (bit b).toList = [bitChar b] := by cases b <;> rfl

theorem returnType_of_isField (h : m.isField = true) : m.returnType = m.type := by
  have hk : m.kind = .field := of_decide_eq_true h
  simp [Member.returnType, hk, MemberKind.isInitializer]

theorem toList_detailRow (m : Member) :
    (detailRow m).toList = Text.join '"' (detailPieces m) ++ ['\n'] := by
  cases hf : m.isField with
  | true =>
    simp [detailRow, detailColumns, detailPieces, hf, returnType_of_isField hf, quote, lineEnd,
      Text.join]
  | false =>
    simp [detailRow, detailColumns, detailPieces, hf, toList_bit, quote, lineEnd,
      Text.join]

theorem not_mem_render {c : Char} (hc : c = '"' ∨ c = '\n') (m : Modifiers) :
    c ∉ m.render.toList := by
  apply Modifiers.not_mem_render
  · rcases hc with rfl | rfl <;> decide
  · intro f
    rcases hc with rfl | rfl <;> cases f <;> decide

theorem not_mem_detailPieces (h : m.Quotable) {c : Char} (hc : c = '"' ∨ c = '\n') :
    ∀ p ∈ detailPieces m, c ∉ p := by
  have hname : c ∉ m.declaring.name.toList ∧ c ∉ m.returnType.toList ∧ c ∉ m.name.toList := by
    rcases hc with rfl | rfl
    · exact ⟨h.className.1, h.type.1, h.name.1⟩
    · exact ⟨h.className.2, h.type.2, h.name.2⟩
  have hparameters : m.isField = false → c ∉ m.parameterList.toList := by
    intro hf
    apply not_mem_parameterList
    · rcases hc with rfl | rfl <;> decide
    · intro p hp
      have hp := h.parameters hf p hp
      rcases hc with rfl | rfl
      · exact hp.2.2.1
      · exact hp.2.2.2
  have hbit : ∀ b, c ≠ bitChar b := by
    intro b
    rcases hc with rfl | rfl <;> cases b <;> decide
  have hmark : c ≠ ',' ∧ c ≠ 'F' ∧ c ≠ 'M' := by
    rcases hc with rfl | rfl <;> decide
  cases hf : m.isField with
  | true => simp [detailPieces, hf, not_mem_render hc, hname, hmark]
  | false => simp [detailPieces, hf, not_mem_render hc, hname, hmark, hbit, hparameters hf]

theorem not_mem_row (h : m.Quotable) : '\n' ∉ Text.join '"' (detailPieces m) := by
  rw [Text.join_eq_intercalate]
  exact Text.not_mem_intercalate (by decide) (not_mem_detailPieces h (Or.inr rfl))

theorem ofRow?_detailPieces (h : m.Quotable) :
    DetailRecord.ofRow? (Text.join '"' (detailPieces m)) = some m.detailRecord := by
  have hne : detailPieces m ≠ [] := List.cons_ne_nil _ _
  have hbit : ∀ b, decide (bitChar b = '1') = b := by
    intro b
    cases b <;> rfl
  have hflags := filter_shownIn_memberOther m
  rw [DetailRecord.ofRow?, Text.split_join hne (not_mem_detailPieces h (Or.inl rfl))]
  cases hf : m.isField with
  | true =>
    simp only [Member.detailRecord, hf, if_true] at hflags
    simp [detailPieces, DetailRecord.ofPieces?, Member.detailRecord, hf, hflags,
      Flag.find?_shownIn_access, filter_shownIn_classOther]
  | false =>
    have hitems : (Text.items ',' m.parameterList.toList).map String.ofList = m.parameters := by
      apply items_parameterList
      intro p hp
      have hp := h.parameters hf p hp
      exact ⟨hp.1, hp.2.1⟩
    simp only [Member.detailRecord, hf, Bool.false_eq_true, if_false] at hflags
    simp [detailPieces, DetailRecord.ofPieces?, Member.detailRecord, hf, hflags, hitems, hbit,
      Flag.find?_shownIn_access, filter_shownIn_classOther]

/-! ## What a row depends on -/

theorem has_eq_of_flagsBut_eq {m n : Modifiers} {omitted : List Flag}
    (h : m.flagsBut omitted = n.flagsBut omitted) {f : Flag} (hf : f ∉ omitted) :
    m.has f = n.has f := by
  have hmem : ∀ k : Modifiers, f ∈ k.flagsBut omitted ↔ k.has f = true := by
    intro k
    simp [Modifiers.flagsBut, List.mem_filter, Flag.mem_all, hf]
  rw [Bool.eq_iff_iff, ← hmem, ← hmem, h]

theorem render_classOther_congr {c d : ClassInfo}
    (h : c.modifiers.flagsBut (Flag.accessOrder ++ [.synchronized, .synthetic]) =
      d.modifiers.flagsBut (Flag.accessOrder ++ [.synchronized, .synthetic])) :
    (classOther c).render = (classOther d).render := by
  apply Modifiers.render_congr
  · intro f hf
    simp [has_classOther, hf]
  · intro f hf
    rw [has_classOther, has_classOther]
    by_cases hs : f = .synchronized
    · simp [hs]
    · have hm : f ∉ Flag.accessOrder ++ [.synchronized, .synthetic] := by
        revert hf hs
        cases f <;> decide
      rw [has_eq_of_flagsBut_eq h hm]

theorem render_memberOther_congr {m n : Member} (hfield : m.isField = n.isField)
    (h : m.detailRecord.flags = n.detailRecord.flags) :
    (memberOther m).render = (memberOther n).render := by
  simp only [Member.detailRecord, ← hfield] at h
  apply Modifiers.render_congr
  · intro f hf
    simp [has_memberOther, hf]
  · intro f hf
    rw [has_memberOther, has_memberOther, ← hfield]
    cases hm : m.isField with
    | true =>
      rw [hm, if_pos rfl] at h
      have hshown : f ∉ Flag.accessOrder ++ [.synthetic] := by
        revert hf
        cases f <;> decide
      rw [has_eq_of_flagsBut_eq h hshown]
    | false =>
      rw [hm, if_neg Bool.false_ne_true] at h
      by_cases ht : f = .transient ∨ f = .volatile
      · rcases ht with rfl | rfl <;> simp
      · have hshown : f ∉ Flag.accessOrder ++ [.transient, .volatile, .synthetic] := by
          revert hf ht
          cases f <;> decide
        rw [has_eq_of_flagsBut_eq h hshown]

theorem detailRow_congr {m n : Member} (h : m.detailRecord = n.detailRecord) :
    detailRow m = detailRow n := by
  have hfield : m.isField = n.isField := by
    have he : m.detailRecord.executable.isNone = n.detailRecord.executable.isNone := by rw [h]
    cases hm : m.isField <;> cases hn : n.isField <;> simp_all [Member.detailRecord]
  have hflags := render_memberOther_congr hfield (congrArg DetailRecord.flags h)
  simp only [Member.detailRecord, DetailRecord.mk.injEq] at h
  obtain ⟨hca, hcf, hcn, ha, -, ht, hn, he⟩ := h
  have hother := render_classOther_congr hcf
  have hcolumns : detailColumns m m.returnType = detailColumns n n.returnType := by
    simp only [detailColumns, Modifiers.render_access, hca, hother, hcn, ha, hflags, ht, hn]
  unfold detailRow
  rw [← hfield]
  cases hm : m.isField with
  | true =>
    rw [← returnType_of_isField hm, ← returnType_of_isField (hfield ▸ hm), hcolumns, if_pos rfl,
      if_pos rfl]
  | false =>
    rw [← hfield, hm] at he
    simp only [Bool.false_eq_true, if_false, Option.some.injEq, ExecutableDetail.mk.injEq] at he
    obtain ⟨hv, hs, hb, hp⟩ := he
    simp only [Bool.false_eq_true, if_false, hcolumns, hv, hs, hb, Member.parameterList, hp]

/-! ## Listings -/

/-- The members of a class that a listing shows. -/
def listedMembers (caller : Option (Filter Member)) (c : JavaClass) : List Member :=
  c.members.filter fun m => caller.all (fun f => f.accept m)

theorem filter_activeFilter (caller : Option (Filter Member)) (c : JavaClass) :
    c.members.filter (activeFilter caller).accept = listedMembers caller c := by
  apply List.filter_congr
  intro m _
  cases caller <;> rfl

theorem shows_detailedCsv (caller : Option (Filter Member)) (c : JavaClass) :
    (detailedCsv caller).Shows c detailRow (listedMembers caller c) :=
  shows_accepted rfl rfl (filter_activeFilter caller c) fun _ _ => rfl

theorem exists_render_detailedCsv (caller : Option (Filter Member)) (c : JavaClass) :
    ∃ t, (detailedCsv caller).render c = .ok t ∧
      (t.getD "").toList = (listedMembers caller c).flatMap fun m =>
        Text.join '"' (detailPieces m) ++ ['\n'] := by
  obtain ⟨t, hrender, htext⟩ := (shows_detailedCsv caller c).exists_toList
  refine ⟨t, hrender, htext.trans ?_⟩
  exact congrArg (List.flatMap · _) (funext toList_detailRow)

/-- The rows of any class, whatever the filter, are read back row by row: there is one record for each
member that the filter accepts, in order. A row depends on nothing but its record. -/
theorem detailed_rows_read_back (caller : Option (Filter Member)) (c : JavaClass)
    (h : ∀ m ∈ listedMembers caller c, m.Quotable) :
    (∃ t, (detailedCsv caller).render c = .ok t ∧
      DetailRecord.listOfText? (t.getD "") =
        some ((listedMembers caller c).map Member.detailRecord)) ∧
      ∀ m n : Member, m.detailRecord = n.detailRecord → detailRow m = detailRow n := by
  refine ⟨?_, fun m n => detailRow_congr⟩
  obtain ⟨t, hrender, htext⟩ := exists_render_detailedCsv caller c
  refine ⟨t, hrender, ?_⟩
  rw [DetailRecord.listOfText?, htext]
  apply Text.mapM_rows_flatMap
  · intro m hm
    exact not_mem_row (h m hm)
  · intro m hm
    exact ofRow?_detailPieces (h m hm)

/-- A class and its members with every bit set, or with bits that are not declared, and one field whose
parameters no row shows. -/
theorem rows_of_any_bits_read_back :
    let info : ClassInfo := ⟨"p.A", ⟨0xFFFFFFFF⟩⟩
    let c : JavaClass := ⟨info,
      [⟨info, .field, ⟨0x80C4⟩, "int", "x,y", ["\"", ""], true, true, true⟩],
      [⟨info, .method, ⟨0xFFFFFFFF⟩, "int", "run", [], true, false, true⟩,
        ⟨info, .constructor, .empty, "p.A", "<init>", ["int", "int[]"], false, true, false⟩]⟩
    ∃ t, (detailedCsv none).render c = .ok t ∧
      DetailRecord.listOfText? (t.getD "") = some
        [⟨some .publicAccess, [.static, .final, .volatile, .transient, .native, .interface, .abstract,
            .strictfp, Flag.annotation, .enum], "p.A", some .protectedAccess, [.volatile, .transient], "int",
            "x,y", none⟩,
          ⟨some .publicAccess, [.static, .final, .volatile, .transient, .native, .interface, .abstract,
            .strictfp, Flag.annotation, .enum], "p.A", some .publicAccess, [.static, .final, .synchronized,
            .native, .interface, .abstract, .strictfp, Flag.annotation, .enum], "int", "run",
            some ⟨true, false, true, []⟩⟩,
          ⟨some .publicAccess, [.static, .final, .volatile, .transient, .native, .interface, .abstract,
            .strictfp, Flag.annotation, .enum], "p.A", none, [], "void", "<init>",
            some ⟨false, true, false, ["int", "int[]"]⟩⟩] := by
  intro info c
  have hq : ∀ m ∈ listedMembers none c, m.Quotable := by decide +kernel
  obtain ⟨t, hrender, hread⟩ := (detailed_rows_read_back none c hq).1
  refine ⟨t, hrender, hread.trans (congrArg some ?_)⟩
  decide +kernel

end Renderer

end ClassListing
