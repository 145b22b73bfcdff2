import ClassListing.Proofs.Renderer.Formats
import ClassListing.Proofs.Text.Pieces
import Mathlib.Tactic.Choose

/-!
# Signature lines can be read back

A line is cut at its marks: the class ends at a colon, the type at a blank, the name at the bracket that opens
and the parameters at the one that closes. If no part holds the mark at which it ends, the text of a
listing says which executables were listed.
-/

namespace ClassListing

set_option autoImplicit false

/-! ## Lines -/

/-- What a signature line says. -/
structure SignatureRecord where
  className : String
  /-- Constructors and static initializers return `void`. -/
  returnType : String
  name : String
  parameters : List String
  deriving DecidableEq, Repr

def Member.signatureRecord (m : Member) : SignatureRecord :=
  ⟨m.declaring.name, m.returnType, m.name, m.parameters⟩

namespace SignatureRecord

def ofLine? (line : List Char) : Option SignatureRecord :=
  match Text.cutAt ['<', ':', ' ', ' ', '(', ')'] line with
  | some [[], className, [], returnType, name, parameters, ['>', ' ']] =>
    some ⟨String.ofList className, String.ofList returnType, String.ofList name,
      (Text.items ',' parameters).map String.ofList⟩
  | _ => none

def listOfText? (text : String) : Option (List SignatureRecord) :=
  (Text.rows text.toList).mapM ofLine?

end SignatureRecord

/-- No part of the signature holds the mark at which it ends, or a line feed. -/
structure Member.Separable (m : Member) : Prop where
  className : ':' ∉ m.declaring.name.toList ∧ '\n' ∉ m.declaring.name.toList
  returnType : ' ' ∉ m.returnType.toList ∧ '\n' ∉ m.returnType.toList
  name : '(' ∉ m.name.toList ∧ '\n' ∉ m.name.toList
  parameters : ∀ p ∈ m.parameters,
    p ≠ "" ∧ ',' ∉ p.toList ∧ ')' ∉ p.toList ∧ '\n' ∉ p.toList

instance (m : Member) : Decidable m.Separable :=
  decidable_of_iff
    ((':' ∉ m.declaring.name.toList ∧ '\n' ∉ m.declaring.name.toList) ∧
      (' ' ∉ m.returnType.toList ∧ '\n' ∉ m.returnType.toList) ∧
      ('(' ∉ m.name.toList ∧ '\n' ∉ m.name.toList) ∧
      ∀ p ∈ m.parameters, p ≠ "" ∧ ',' ∉ p.toList ∧ ')' ∉ p.toList ∧ '\n' ∉ p.toList)
    ⟨fun ⟨hc, ht, hn, hp⟩ => ⟨hc, ht, hn, hp⟩, fun ⟨hc, ht, hn, hp⟩ => ⟨hc, ht, hn, hp⟩⟩

namespace Renderer

variable {m : Member}

def signatureMarks (m : Member) : List Char :=
  '<' :: (m.declaring.name.toList ++ ':' :: ' ' :: (m.returnType.toList ++ ' ' ::
    (m.name.toList ++ '(' :: (m.parameterList.toList ++ [')', '>', ' ']))))

theorem toList_signatureLine (h : m.isField = false) :
    (signatureLine m).toList = signatureMarks m ++ ['\n'] := by
  simp [signatureLine, signatureMarks, Member.signature, h, lineEnd]

theorem toList_parameterList (m : Member) :
    m.parameterList.toList = [','].intercalate (m.parameters.map String.toList) :=
  String.toList_intercalate

theorem not_mem_parameterList {c : Char} (hc : c ≠ ',') (h : ∀ p ∈ m.parameters, c ∉ p.toList) :
    c ∉ m.parameterList.toList := by
  rw [toList_parameterList]
  apply Text.not_mem_intercalate hc
  intro p hp
  obtain ⟨q, hq, rfl⟩ := List.mem_map.mp hp
  exact h q hq

/-- The list of parameters is empty only if there is none, because no parameter is. -/
theorem items_parameterList (h : ∀ p ∈ m.parameters, p ≠ "" ∧ ',' ∉ p.toList) :
    (Text.items ',' m.parameterList.toList).map String.ofList = m.parameters := by
  have hp : ∀ p ∈ m.parameters.map String.toList, p ≠ [] ∧ ',' ∉ p := by
    intro p hp
    obtain ⟨q, hq, rfl⟩ := List.mem_map.mp hp
    obtain ⟨hne, hcomma⟩ := h q hq
    exact ⟨fun hnil => hne (String.toList_eq_nil_iff.mp hnil), hcomma⟩
  rw [toList_parameterList, Text.items_intercalate hp, List.map_map]
  simp [Function.comp_def]

theorem not_mem_signatureMarks (h : m.Separable) : '\n' ∉ signatureMarks m := by
  have hp : '\n' ∉ m.parameterList.toList :=
    not_mem_parameterList (by decide) fun p hp => (h.parameters p hp).2.2.2
  simp [signatureMarks, h.className.2, h.returnType.2, h.name.2, hp]

theorem ofLine?_signatureMarks (h : m.Separable) :
    SignatureRecord.ofLine? (signatureMarks m) = some m.signatureRecord := by
  have hclose : ')' ∉ m.parameterList.toList :=
    not_mem_parameterList (by decide) fun p hp => (h.parameters p hp).2.2.1
  have hitems : (Text.items ',' m.parameterList.toList).map String.ofList = m.parameters :=
    items_parameterList fun p hp => ⟨(h.parameters p hp).1, (h.parameters p hp).2.1⟩
  have hcut : Text.cutAt ['<', ':', ' ', ' ', '(', ')'] (signatureMarks m) =
      some [[], m.declaring.name.toList, [], m.returnType.toList, m.name.toList,
        m.parameterList.toList, ['>', ' ']] := by
    rw [signatureMarks, Text.cutAt_self, Text.cutAt_append h.className.1, Text.cutAt_self,
      Text.cutAt_append h.returnType.1, Text.cutAt_append h.name.1, Text.cutAt_append hclose]
    rfl
  simp [SignatureRecord.ofLine?, hcut, hitems, Member.signatureRecord]

/-! ## Listings -/

/-- The executables of a class that a listing shows. -/
def listedExecutables (caller : Option (Filter Member)) (c : JavaClass) : List Member :=
  c.members.filter fun m => caller.all (fun f => f.accept m) && m.isExecutable

theorem shows_signatures {caller : Option (Filter Member)} (hc : ∀ f ∈ caller, f.Identified)
    (free : Nat) (c : JavaClass) :
    (signatures caller free).1.Shows c signatureLine (listedExecutables caller c) := by
  refine shows_accepted rfl rfl (List.filter_congr fun m _ => accept_signatures hc free m) ?_
  intro m hm
  have he := (List.mem_filter.mp hm).2
  rw [Bool.and_eq_true] at he
  rw [renderMember_signatures, isField_of_isExecutable he.2]
  rfl

/-- The texts of several classes one after another are the lines of all their executables. -/
theorem exists_renderAll_signatures {caller : Option (Filter Member)}
    (hc : ∀ f ∈ caller, f.Identified) (free : Nat) (classes : List JavaClass) :
    ∃ texts, classes.mapM (signatures caller free).1.render = .ok texts ∧
      (String.join (texts.map (·.getD ""))).toList =
        (classes.flatMap (listedExecutables caller)).flatMap fun m => (signatureLine m).toList := by
  choose text hrender htext using fun c => (shows_signatures hc free c).exists_toList
  refine ⟨classes.map text, mapM_of_ok fun c _ => hrender c, ?_⟩
  rw [String.toList_join, List.map_map, List.flatMap_map, List.flatMap_assoc]
  exact congrArg (classes.flatMap ·) (funext htext)

theorem listOfText?_lines {ms : List Member} (he : ∀ m ∈ ms, m.isExecutable = true)
    (h : ∀ m ∈ ms, m.Separable) {text : String}
    (ht : text.toList = ms.flatMap fun m => (signatureLine m).toList) :
    SignatureRecord.listOfText? text = some (ms.map Member.signatureRecord) := by
  have hlines : text.toList = ms.flatMap fun m => signatureMarks m ++ ['\n'] := by
    rw [ht, List.flatMap_def, List.flatMap_def]
    refine congrArg List.flatten (List.map_congr_left fun m hm => ?_)
    exact toList_signatureLine (isField_of_isExecutable (he m hm))
  rw [SignatureRecord.listOfText?, hlines]
  apply Text.mapM_rows_flatMap
  · intro m hm
    exact not_mem_signatureMarks (h m hm)
  · intro m hm
    exact ofLine?_signatureMarks (h m hm)

/-- The lines of any classes, whatever the caller's filter, are read back line by line: they say which
executables of the classes the filter accepts, in order. So two executables with the same line have
the same class, type, name and parameters. -/
theorem signature_lines_read_back {caller : Option (Filter Member)}
    (hc : ∀ f ∈ caller, f.Identified) (free : Nat) (classes : List JavaClass)
    (h : ∀ m ∈ classes.flatMap (listedExecutables caller), m.Separable) :
    let listed := classes.flatMap (listedExecutables caller)
    (∃ texts, classes.mapM (signatures caller free).1.render = .ok texts ∧
      SignatureRecord.listOfText? (String.join (texts.map (·.getD ""))) =
        some (listed.map Member.signatureRecord)) ∧
      ∀ m ∈ listed, ∀ m' ∈ listed, signatureLine m = signatureLine m' →
        m.signatureRecord = m'.signatureRecord := by
  intro listed
  have he : ∀ m ∈ listed, m.isExecutable = true := by
    intro m hm
    obtain ⟨c, -, hm⟩ := List.mem_flatMap.mp hm
    have hm := (List.mem_filter.mp hm).2
    rw [Bool.and_eq_true] at hm
    exact hm.2
  constructor
  · obtain ⟨texts, hrender, htext⟩ := exists_renderAll_signatures hc free classes
    exact ⟨texts, hrender, listOfText?_lines he h htext⟩
  · intro m hm m' hm' hline
    have hmarks : signatureMarks m ++ ['\n'] = signatureMarks m' ++ ['\n'] := by
      rw [← toList_signatureLine (isField_of_isExecutable (he m hm)),
        ← toList_signatureLine (isField_of_isExecutable (he m' hm')), hline]
    have hread := ofLine?_signatureMarks (h m hm)
    rw [List.append_cancel_right hmarks, ofLine?_signatureMarks (h m' hm')] at hread
    exact (Option.some.inj hread).symm

/-- Overloads, a constructor and a method that takes its name, with a field that no line could show. -/
theorem overloads_read_back :
    let info : ClassInfo := ⟨"p.A", .empty⟩
    let method (kind : MemberKind) (type name : String) (parameters : List String) : Member :=
      ⟨info, kind, .empty, type, name, parameters, false, false, false⟩
    let c : JavaClass := ⟨info, [method .field "a b:(" "x" []],
      [method .method "int" "get" [], method .method "int" "get" ["int"],
        method .constructor "p.A" "<init>" ["int", "int[]"],
        method .method "p.A" "<init> :)" ["int", "int[]"]]⟩
    ∃ texts, [c].mapM (signatures (some MemberFilter.all.filter) FilterScope.firstFree).1.render =
        .ok texts ∧
      SignatureRecord.listOfText? (String.join (texts.map (·.getD ""))) =
        some [⟨"p.A", "int", "get", []⟩, ⟨"p.A", "int", "get", ["int"]⟩,
          ⟨"p.A", "void", "<init>", ["int", "int[]"]⟩,
          ⟨"p.A", "p.A", "<init> :)", ["int", "int[]"]⟩] := by
  intro info method c
  have hc : ∀ f ∈ some MemberFilter.all.filter, f.Identified := by
    rintro f ⟨⟩
    exact MemberFilter.identified .all
  have hs : ∀ m ∈ [c].flatMap (listedExecutables (some MemberFilter.all.filter)), m.Separable := by
    decide +kernel
  exact (signature_lines_read_back hc FilterScope.firstFree [c] hs).1

end Renderer

end ClassListing
