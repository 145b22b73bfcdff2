import ClassListing.Proofs.ClassRecord.Entries
import ClassListing.Proofs.Json.Layouts

/-!
# Class records are understood

What a JSON value means as modifiers, as a kind, as a member and as a class, and that the readers of class
records give just this, whatever the text of the value is.
-/

namespace ClassListing

set_option autoImplicit false

open Json (Value Spells Blank Ends Understands Bytes)

/-! ## Modifiers and kinds -/

def Modifiers.ofValue? (v : Value) : Option Modifiers := v.text?.bind fun text => (ofText text).toOption

theorem Modifiers.read_understands : Understands read ofValue? := by
  intro v t hv w rest hw hrest
  have hread := Json.stringOf_understands .flags hv hw hrest
  rw [read, ofValue?]
  cases ht : v.text? with
  | none =>
    rw [ht] at hread
    obtain ⟨e, he⟩ := Json.exists_error hread
    rw [he]
    rfl
  | some text =>
    rw [ht] at hread
    rw [Json.eq_ok hread]
    simp only [Option.bind_some]
    cases ofText text <;> rfl

namespace MemberKind

def variant? : Value → Option MemberKind
  | .string (some text) => ofText? text
  | .object [(some text, .null)] => ofText? text
  | _ => none

def ofValue? : Value → Option (Option MemberKind)
  | .null => some none
  | v => (variant? v).map some

theorem variant?_object (text : String) (v : Value) (es : List (Option String × Value)) :
    variant? (.object ((some text, v) :: es)) =
      v.nothing?.bind fun _ => if es.isEmpty then ofText? text else none := by
  cases v <;> cases es <;> rfl

theorem variant?_object_none (v : Value) (es : List (Option String × Value)) :
    variant? (.object ((none, v) :: es)) = none := by
  cases v <;> cases es <;> rfl

/-- What follows the value of the only key of an object. -/
theorem close_entries {es : List (Option String × Value)} {t : Bytes}
    (h : Spells (.entries false es) t) (k : MemberKind) (rest : Bytes) :
    (match Json.skipBlank (t ++ rest) with
      | [] => Except.error (Json.Error.ended .object)
      | b :: r => if b = 0x7D then .ok (k, r) else .error (.grammar .expectedValue)).toOption =
      if es.isEmpty then some (k, rest) else none := by
  cases h with
  | noEntry hw =>
    rw [List.append_assoc, Json.skipBlank_append hw]
    rfl
  | entry hgap =>
    cases hgap with
    | next hw =>
      rw [List.append_assoc, List.append_assoc, Json.skipBlank_append hw]
      rfl

theorem read_object {es : List (Option String × Value)} {s : Bytes} (h : Spells (.entries true es) s)
    (rest : Bytes) :
    (read (0x7B :: (s ++ rest))).toOption = (variant? (.object es)).map (·, rest) := by
  have hbrace : (0x7B : UInt8) ≠ 0x22 := by decide
  have hclose : (0x7D : UInt8) ≠ 0x22 := by decide
  have hquote : Json.isBlank 0x22 = false := rfl
  rw [read, Json.skipBlank_cons rfl]
  simp only [hbrace, if_false, if_true]
  cases h with
  | noEntry hw =>
    have hblank : Json.isBlank 0x7D = false := rfl
    simp only [List.append_assoc, List.singleton_append, Json.onlyKey, Json.skipBlank_append hw,
      Json.skipBlank_cons hblank, hclose, if_false]
    rfl
  | @entry _ g w w' s t key v es hgap ps hkey hw hw' hv hes =>
    cases hgap with
    | first hg =>
      have hname := Json.readString_quoted ps (w ++ 0x3A :: (w' ++ (s ++ (t ++ rest))))
      have hunit := Json.unit_understands hv hw' (hes.entries_ends rest)
      rw [hkey] at hname
      simp only [List.append_assoc, List.cons_append, Json.onlyKey, Json.skipBlank_append hg,
        Json.skipBlank_cons hquote, if_true]
      cases key with
      | none =>
        obtain ⟨e, he⟩ := Json.exists_error hname
        rw [he, variant?_object_none]
        rfl
      | some text =>
        rw [Json.eq_ok hname, variant?_object]
        simp only [ofVariant]
        cases ofText? text with
        | none => cases v.nothing? <;> cases es <;> rfl
        | some k =>
          simp only [Json.colon_append hw]
          cases hn : v.nothing? with
          | none =>
            rw [hn] at hunit
            obtain ⟨e, he⟩ := Json.exists_error hunit
            rw [he]
            rfl
          | some u =>
            rw [hn] at hunit
            simp only [Json.eq_ok hunit]
            refine (close_entries hes k rest).trans ?_
            cases es <;> rfl

theorem read_understands : Understands read variant? := by
  intro v t h w rest hw hrest
  obtain ⟨b, r, rfl, hopens, hs⟩ := h.skipBlank hw rest
  have hread : read (w ++ (b :: r ++ rest)) = read (b :: (r ++ rest)) := by
    simp only [read, hs, Json.skipBlank_cons (Json.Value.not_isBlank hopens)]
  rw [hread]
  cases h with
  | @string text ps h =>
    have hname := Json.readString_quoted ps rest
    rw [h] at hname
    rw [read, Json.skipBlank_cons rfl]
    simp only [if_true]
    cases text with
    | none =>
      obtain ⟨e, he⟩ := Json.exists_error hname
      rw [he]
      rfl
    | some text =>
      simp only [Json.eq_ok hname, ofVariant, variant?]
      cases ofText? text <;> rfl
  | object h => exact read_object h rest
  | _ =>
    rw [read, Json.skipBlank_cons (Json.Value.not_isBlank hopens)]
    simp only [Json.Value.ne_of_opens hopens (rfl : Value.opens _ 0x22 = false),
      Json.Value.ne_of_opens hopens (rfl : Value.opens _ 0x7B = false), if_false]
    rfl

theorem read?_understands : Understands read? ofValue? := by
  intro v t h w rest hw hrest
  have hread := read_understands h (w := []) (by decide) hrest
  obtain ⟨b, r, rfl, hopens, hs⟩ := h.skipBlank hw rest
  rw [read?, hs]
  by_cases hnull : b = 0x6E
  · subst hnull
    cases v with
    | null =>
      cases h
      simp only [if_true, Json.expectTail_append]
      rfl
    | boolean b => cases b <;> cases hopens
    | _ => cases hopens
  · have hvalue : ofValue? v = (variant? v).map some := by
      cases v with
      | null => exact absurd (by simpa [Value.opens] using hopens) hnull
      | _ => rfl
    rw [List.nil_append, List.cons_append] at hread
    simp only [hnull, if_false, hvalue]
    rw [Json.toOption_map, hread]
    cases variant? v <;> rfl

end MemberKind

/-! ## Members -/

namespace MemberRecord

/-- What a value means under each key, in the order of the fields. -/
def columns : List (String × (Value → Option Entry)) := [
  ("kind", fun v => (MemberKind.ofValue? v).map .kind),
  ("modifiers", fun v => (Modifiers.ofValue? v).map .modifiers),
  ("type", fun v => v.text?.map .type),
  ("name", fun v => v.text?.map .name),
  ("parameters", fun v => (v.list? Value.text?).map .parameters),
  ("varargs", fun v => v.truth?.map .varargs),
  ("synthetic", fun v => v.truth?.map .synthetic),
  ("bridge", fun v => v.truth?.map .bridge)]

theorem key_of_column : ∀ c ∈ columns, ∀ v, ∀ e ∈ c.2 v, e.key = c.1 := by
  simp only [columns, List.forall_mem_cons, Option.mem_def, Option.map_eq_some_iff,
    forall_exists_index, and_imp, forall_apply_eq_imp_iff₂, Entry.key, implies_true,
    List.not_mem_nil, false_implies, and_self]

theorem readEntry_takes {d : Draft} {k : String} {v : Value} {t w w' rest : Bytes}
    (hv : Spells (.value v) t) (hw : Blank w) (hw' : Blank w') (hrest : Ends rest) :
    (readEntry k d (w ++ 0x3A :: (w' ++ (t ++ rest)))).toOption =
      (Json.takeEntry columns Entry.isGiven Entry.enter d k v).map (·, rest) := by
  have henter {α : Type} {reader : Json.Reader α} {meaning : Value → Option α}
      (h : Understands reader meaning) (make : α → Entry) (key : String) {old : Option α}
      (hgiven : ∀ x, Entry.isGiven d (make x) = old.isSome) :=
    Json.enter_onceOnly h make (Entry.enter d) (Entry.isGiven d) key hgiven hv hw hw' hrest
  have hstring : Understands Json.string Value.text? := Json.stringOf_understands .string
  unfold readEntry
  split
  · next h =>
    subst h
    exact henter MemberKind.read?_understands .kind "kind" fun _ => rfl
  split
  · next h =>
    subst h
    exact henter Modifiers.read_understands .modifiers "modifiers" fun _ => rfl
  split
  · next h =>
    subst h
    exact henter hstring .type "type" fun _ => rfl
  split
  · next h =>
    subst h
    exact henter hstring .name "name" fun _ => rfl
  split
  · next h =>
    subst h
    exact henter hstring.sequence .parameters "parameters" fun _ => rfl
  split
  · next h =>
    subst h
    exact henter Json.boolean_understands .varargs "varargs" fun _ => rfl
  split
  · next h =>
    subst h
    exact henter Json.boolean_understands .synthetic "synthetic" fun _ => rfl
  split
  · next h =>
    subst h
    exact henter Json.boolean_understands .bridge "bridge" fun _ => rfl
  · have hunknown : columns.lookup k = none :=
      List.lookup_eq_none_iff.mpr (by simp_all [columns])
    rw [Json.takeEntry, hunknown]
    exact congrArg Except.toOption (Json.skip_unknown hv hw hw' hrest d)

def understood : Json.RecordColumns Entry Draft readEntry where
  toRecordKeys := keys
  columns := columns
  key_eq := Json.key_of_lookup key_of_column
  isGiven_congr := by
    intro d e f h
    cases e <;> cases f <;> first | rfl | simp [keys, Entry.key] at h
  isGiven_enter_self := by
    intro d e
    cases e <;> rfl
  takes := readEntry_takes

def ofValue? : Value → Option MemberRecord := understood.record? {} fun d => (ofDraft d).toOption

theorem readElements_spelled {vs : List Value} {rest s : Bytes} (h : Json.AtItems true vs rest s) :
    (readElements s).toOption = (ofValue? (.array vs)).map (·, rest) := by
  have hstring : Understands Json.string Value.text? := Json.stringOf_understands .string
  rw [ofValue?, Json.record?_array]
  unfold readElements
  refine Json.element?_bind MemberKind.read?_understands h Entry.kind (fun kind => ({ kind } : Draft)) rfl
    (fun _ => rfl) (fun _ => rfl) fun kind vs s h hkind => ?_
  refine Json.element?_bind Modifiers.read_understands (h.isNone hkind) Entry.modifiers
    (fun modifiers => ({ kind, modifiers } : Draft)) rfl (fun _ => rfl) (fun _ => rfl)
    fun modifiers vs s h hmodifiers => ?_
  refine Json.element?_bind hstring (h.isNone hmodifiers) Entry.type
    (fun type => ({ kind, modifiers, type } : Draft)) rfl (fun _ => rfl) (fun _ => rfl)
    fun type vs s h htype => ?_
  cases type with
  | none =>
    rw [htype rfl]
    rfl
  | some type =>
    refine Json.element?_bind hstring h Entry.name
      (fun name => ({ kind, modifiers, type := some type, name } : Draft)) rfl (fun _ => rfl)
      (fun _ => rfl) fun name vs s h hname => ?_
    cases name with
    | none =>
      rw [hname rfl]
      rfl
    | some name =>
      refine Json.element?_bind hstring.sequence h Entry.parameters
        (fun parameters => ({ kind, modifiers, type := some type, name := some name, parameters } : Draft))
        rfl (fun _ => rfl) (fun _ => rfl) fun parameters vs s h _ => ?_
      refine Json.element?_bind Json.boolean_understands h Entry.varargs
        (fun varargs =>
          ({ kind, modifiers, type := some type, name := some name, parameters, varargs } : Draft))
        rfl (fun _ => rfl) (fun _ => rfl) fun varargs vs s h _ => ?_
      refine Json.element?_bind Json.boolean_understands h Entry.synthetic
        (fun synthetic =>
          ({ kind, modifiers, type := some type, name := some name, parameters, varargs,
             synthetic } : Draft))
        rfl (fun _ => rfl) (fun _ => rfl) fun synthetic vs s h _ => ?_
      refine Json.element?_bind Json.boolean_understands h Entry.bridge
        (fun bridge =>
          ({ kind, modifiers, type := some type, name := some name, parameters, varargs, synthetic,
             bridge } : Draft))
        rfl (fun _ => rfl) (fun _ => rfl) fun bridge vs s h _ => ?_
      exact Json.endOfRecord_bind h rfl

theorem read_eq : read = Json.readRecord readElements readEntry {} ofDraft .memberRecord := by
  funext s
  rw [read, Json.readRecord]
  cases Json.skipBlank s with
  | nil => rfl
  | cons b r =>
    dsimp only
    cases Json.entries readEntry (b :: r) true {} r <;> rfl

theorem read_understands : Understands read ofValue? := by
  rw [read_eq]
  exact Json.readRecord_understands understood .memberRecord readElements_spelled

end MemberRecord

/-! ## Classes -/

namespace ClassRecord

/-- What a value means under each key, in the order of the fields. -/
def columns : List (String × (Value → Option Entry)) := [
  ("name", fun v => v.text?.map .name),
  ("modifiers", fun v => (Modifiers.ofValue? v).map .modifiers),
  ("fields", fun v => (v.list? MemberRecord.ofValue?).map .fields),
  ("methods", fun v => (v.list? MemberRecord.ofValue?).map .methods)]

theorem key_of_column : ∀ c ∈ columns, ∀ v, ∀ e ∈ c.2 v, e.key = c.1 := by
  simp only [columns, List.forall_mem_cons, Option.mem_def, Option.map_eq_some_iff,
    forall_exists_index, and_imp, forall_apply_eq_imp_iff₂, Entry.key, implies_true,
    List.not_mem_nil, false_implies, and_self]

theorem readEntry_takes {d : Draft} {k : String} {v : Value} {t w w' rest : Bytes}
    (hv : Spells (.value v) t) (hw : Blank w) (hw' : Blank w') (hrest : Ends rest) :
    (readEntry k d (w ++ 0x3A :: (w' ++ (t ++ rest)))).toOption =
      (Json.takeEntry columns Entry.isGiven Entry.enter d k v).map (·, rest) := by
  have henter {α : Type} {reader : Json.Reader α} {meaning : Value → Option α}
      (h : Understands reader meaning) (make : α → Entry) (key : String) {old : Option α}
      (hgiven : ∀ x, Entry.isGiven d (make x) = old.isSome) :=
    Json.enter_onceOnly h make (Entry.enter d) (Entry.isGiven d) key hgiven hv hw hw' hrest
  have hmembers := MemberRecord.read_understands.sequence
  unfold readEntry
  split
  · next h =>
    subst h
    exact henter (Json.stringOf_understands .string) .name "name" fun _ => rfl
  split
  · next h =>
    subst h
    exact henter Modifiers.read_understands .modifiers "modifiers" fun _ => rfl
  split
  · next h =>
    subst h
    exact henter hmembers .fields "fields" fun _ => rfl
  split
  · next h =>
    subst h
    exact henter hmembers .methods "methods" fun _ => rfl
  · have hunknown : columns.lookup k = none :=
      List.lookup_eq_none_iff.mpr (by simp_all [columns])
    rw [Json.takeEntry, hunknown]
    exact congrArg Except.toOption (Json.skip_unknown hv hw hw' hrest d)

def understood : Json.RecordColumns Entry Draft readEntry where
  toRecordKeys := keys
  columns := columns
  key_eq := Json.key_of_lookup key_of_column
  isGiven_congr := by
    intro d e f h
    cases e <;> cases f <;> first | rfl | simp [keys, Entry.key] at h
  isGiven_enter_self := by
    intro d e
    cases e <;> rfl
  takes := readEntry_takes

def ofValue? : Value → Option ClassRecord := understood.record? {} fun d => (ofDraft d).toOption

theorem readElements_spelled {vs : List Value} {rest s : Bytes} (h : Json.AtItems true vs rest s) :
    (readElements s).toOption = (ofValue? (.array vs)).map (·, rest) := by
  have hmembers := MemberRecord.read_understands.sequence
  rw [ofValue?, Json.record?_array]
  unfold readElements
  refine Json.element?_bind (Json.stringOf_understands .string) h Entry.name
    (fun name => ({ name } : Draft)) rfl (fun _ => rfl) (fun _ => rfl) fun name vs s h hname => ?_
  cases name with
  | none =>
    rw [hname rfl]
    rfl
  | some name =>
    refine Json.element?_bind Modifiers.read_understands h Entry.modifiers
      (fun modifiers => ({ name := some name, modifiers } : Draft)) rfl (fun _ => rfl) (fun _ => rfl)
      fun modifiers vs s h _ => ?_
    refine Json.element?_bind hmembers h Entry.fields
      (fun fields => ({ name := some name, modifiers, fields } : Draft)) rfl (fun _ => rfl)
      (fun _ => rfl) fun fields vs s h _ => ?_
    refine Json.element?_bind hmembers h Entry.methods
      (fun methods => ({ name := some name, modifiers, fields, methods } : Draft)) rfl (fun _ => rfl)
      (fun _ => rfl) fun methods vs s h _ => ?_
    exact Json.endOfRecord_bind h rfl

theorem read_eq : read = Json.readRecord readElements readEntry {} ofDraft .classRecord := by
  funext s
  rw [read, Json.readRecord]
  cases Json.skipBlank s with
  | nil => rfl
  | cons b r =>
    dsimp only
    cases Json.entries readEntry (b :: r) true {} r <;> rfl

theorem read_understands : Understands read ofValue? := by
  rw [read_eq]
  exact Json.readRecord_understands understood .classRecord readElements_spelled

theorem listOfJson_eq {v : Value} {text : Bytes} (h : v.HasText text) :
    (listOfJson text).toOption = v.list? ofValue? := read_understands.sequence.whole h

end ClassRecord

end ClassListing
