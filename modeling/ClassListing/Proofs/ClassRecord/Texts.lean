import ClassListing.Proofs.ClassRecord.Layouts
import ClassListing.Proofs.Json.Soundness

/-!
# Only layouts are read

A text that is read as class records lays them out. So the texts of catalogs are just those of lists of
values that lay out class records.
-/

namespace ClassListing

set_option autoImplicit false

open Json (Value Bytes IsText TakesOnly HasValue HasItems HasEntries HasAssigned)

theorem held_of_not_given {α : Type} {given : Option α} (h : given.isSome = false) {x : α} :
    ∀ y, given = some y → y = x := by
  rintro y rfl
  cases h

/-! ## Readers of records -/

theorem Modifiers.read_takesOnly : TakesOnly HasValue read := by
  intro s m rest hs h
  unfold read at h
  split at h
  · cases h
  · next hread =>
    split at h
    · cases h
      exact Json.stringOf_takesOnly .flags hs hread
    · cases h

theorem Modifiers.text_of_ofValue? {v : Value} {m : Modifiers} (h : ofValue? v = some m) :
    ∃ text, v = .string (some text) ∧ ofText text = .ok m := by
  obtain ⟨text, htext, hm⟩ := Option.bind_eq_some_iff.mp h
  exact ⟨text, Value.eq_of_text? htext, Json.eq_ok hm⟩

namespace MemberKind

theorem text_of_ofText? {text : String} {k : MemberKind} (h : ofText? text = some k) :
    text = k.text := by
  have hk := List.find?_some h
  simpa [eq_comm] using hk

/-- An object with one key and `null` as the value. -/
theorem only_entry {r r' rest : Bytes} {text : String} {u : Unit} (hr : IsText r)
    (hkey : Json.onlyKey r = .ok (text, r')) (hvalue : ∃ s, Json.colon r' = .ok s ∧
      ∃ s', Json.unit s = .ok (u, s') ∧ Json.skipBlank s' = 0x7D :: rest) :
    HasEntries true r rest ∧ IsText rest := by
  unfold Json.onlyKey at hkey
  split at hkey
  · cases hkey
  · next b q hb =>
    obtain ⟨w, hw, rfl⟩ := Json.exists_blank_cons hb
    split at hkey
    · next hquote =>
      subst hquote
      obtain ⟨ps, rfl, hr'⟩ :=
        Json.exists_quoted_of_readString (hr.of_blank_cons hw (by decide)) hkey
      obtain ⟨s, hcolon, s', hunit, hclose⟩ := hvalue
      obtain ⟨hassigned, hs'⟩ := Json.assigned_of_colon Json.unit_takesOnly hr' hcolon hunit
      obtain ⟨w', hw', rfl⟩ := Json.exists_blank_cons hclose
      exact ⟨.cons (.first hw) ps hassigned (.nil hw'), hs'.of_blank_cons hw' (by decide)⟩
    · cases hkey

theorem read_takesOnly : TakesOnly HasValue read := by
  intro s k rest hs h
  unfold read at h
  split at h
  · cases h
  · next b r hb =>
    refine Json.takes_of_skipBlank hs hb fun hr => ?_
    split at h
    · next hquote =>
      subst hquote
      split at h
      · cases h
      · next hstring =>
        obtain ⟨_, -, heq⟩ := Json.map_eq_ok h
        cases heq
        obtain ⟨ps, rfl, hrest⟩ := Json.exists_quoted_of_readString (hr.of_cons (by decide)) hstring
        exact ⟨.of_spells (.string ps rfl), hrest⟩
    split at h
    · next hopen =>
      subst hopen
      split at h
      · cases h
      · next hkey =>
        split at h
        · cases h
        · split at h
          · cases h
          · next hcolon =>
            split at h
            · cases h
            · next hunit =>
              split at h
              · cases h
              · next hclose =>
                split at h
                · next hbrace =>
                  cases h
                  subst hbrace
                  obtain ⟨hes, hrest⟩ := only_entry (hr.of_cons (by decide)) hkey
                    ⟨_, hcolon, _, hunit, hclose⟩
                  exact ⟨.object hes, hrest⟩
                · cases h
    · cases h

theorem read?_takesOnly : TakesOnly HasValue read? := by
  intro s k rest hs h
  unfold read? at h
  split at h
  · cases h
  · next b r hb =>
    refine Json.takes_of_skipBlank hs hb fun hr => ?_
    split at h
    · next hnull =>
      subst hnull
      exact Json.word_takes .null (by decide) hr h
    · obtain ⟨_, hread, heq⟩ := Json.map_eq_ok h
      cases heq
      exact read_takesOnly hr hread

end MemberKind

namespace MemberRecord

theorem readEntry_takesOnly (key : String) (d : Draft) : TakesOnly HasAssigned (readEntry key d) := by
  have hstring : TakesOnly HasValue Json.string := Json.stringOf_takesOnly .string
  intro s d' rest hs h
  unfold readEntry at h
  split at h
  · exact Json.onceOnly_takes MemberKind.read?_takesOnly hs h fun _ => rfl
  split at h
  · exact Json.onceOnly_takes Modifiers.read_takesOnly hs h fun _ => rfl
  split at h
  · exact Json.onceOnly_takes hstring hs h fun _ => rfl
  split at h
  · exact Json.onceOnly_takes hstring hs h fun _ => rfl
  split at h
  · exact Json.onceOnly_takes hstring.sequence hs h fun _ => rfl
  split at h
  · exact Json.onceOnly_takes Json.boolean_takesOnly hs h fun _ => rfl
  split at h
  · exact Json.onceOnly_takes Json.boolean_takesOnly hs h fun _ => rfl
  split at h
  · exact Json.onceOnly_takes Json.boolean_takesOnly hs h fun _ => rfl
  · exact Json.unknown_takes hs h

theorem readElements_takesOnly : TakesOnly (HasItems true) readElements := by
  have hstring : TakesOnly HasValue Json.string := Json.stringOf_takesOnly .string
  intro s m rest hs h
  unfold readElements at h
  refine Json.element?_takes MemberKind.read?_takesOnly hs h fun kind s hs hkind h => ?_
  refine HasItems.isNone hkind
    (Json.element?_takes Modifiers.read_takesOnly hs h fun modifiers s hs hmodifiers h => ?_)
  refine HasItems.isNone hmodifiers (Json.element?_takes hstring hs h fun type s hs _ h => ?_)
  cases type with
  | none => cases h
  | some type =>
    refine Json.element?_takes hstring hs h fun name s hs _ h => ?_
    cases name with
    | none => cases h
    | some name =>
      refine Json.element?_takes hstring.sequence hs h fun _ s hs _ h => ?_
      refine Json.element?_takes Json.boolean_takesOnly hs h fun _ s hs _ h => ?_
      refine Json.element?_takes Json.boolean_takesOnly hs h fun _ s hs _ h => ?_
      refine Json.element?_takes Json.boolean_takesOnly hs h fun _ s hs _ h => ?_
      exact Json.endOfRecord_takes hs h

theorem read_takesOnly : TakesOnly HasValue read := by
  rw [read_eq]
  exact Json.readRecord_takesOnly .memberRecord readElements_takesOnly readEntry_takesOnly

/-! ### Values of members -/

theorem told_of_kind {v : Value} {k : Option MemberKind} (h : MemberKind.ofValue? v = some k) :
    Entry.Told v (.kind k) := by
  unfold MemberKind.ofValue? at h
  split at h
  · cases h
    exact .noKind
  · obtain ⟨k, hk, rfl⟩ := Option.map_eq_some_iff.mp h
    unfold MemberKind.variant? at hk
    split at hk
    · obtain rfl := MemberKind.text_of_ofText? hk
      exact .kind k
    · obtain rfl := MemberKind.text_of_ofText? hk
      exact .onlyKind k
    · cases hk

theorem told_of_parameters {v : Value} {types : List String} (h : v.list? Value.text? = some types) :
    Entry.Told v (.parameters types) := by
  obtain ⟨vs, rfl, hvs⟩ := Json.forall₂_of_list? h
  have hstrings : vs = types.map fun type => .string (some type) := by
    clear h
    induction hvs with
    | nil => rfl
    | cons htext _ ih => rw [List.map_cons, Value.eq_of_text? htext, ih]
  exact hstrings ▸ .parameters types

theorem told_of_column : ∀ c ∈ columns, ∀ v, ∀ e ∈ c.2 v, Entry.Told v e := by
  simp only [columns, List.forall_mem_cons, Option.mem_def, Option.map_eq_some_iff,
    forall_exists_index, and_imp, forall_apply_eq_imp_iff₂]
  refine ⟨fun _ _ h => told_of_kind h, fun _ _ h => ?_, fun _ _ h => ?_, fun _ _ h => ?_,
    fun _ _ h => told_of_parameters h, fun _ _ h => ?_, fun _ _ h => ?_, fun _ _ h => ?_, by simp⟩
  · obtain ⟨text, rfl, hm⟩ := Modifiers.text_of_ofValue? h
    exact .modifiers hm
  · exact Value.eq_of_text? h ▸ .type _
  · exact Value.eq_of_text? h ▸ .name _
  · exact Value.eq_of_truth? h ▸ .varargs _
  · exact Value.eq_of_truth? h ▸ .synthetic _
  · exact Value.eq_of_truth? h ▸ .bridge _

theorem Draft.HeldBy.entered {m : MemberRecord} {d : Draft} {e : Entry} (hnew : e.isGiven d = false)
    (h : (e.enter d).HeldBy m) : e ∈ m.entries ∧ d.HeldBy m := by
  cases e with
  | kind k => exact ⟨by simp [entries, h.kind k rfl], { h with kind := held_of_not_given hnew }⟩
  | modifiers w =>
    exact ⟨by simp [entries, h.modifiers w rfl], { h with modifiers := held_of_not_given hnew }⟩
  | type text => exact ⟨by simp [entries, h.type text rfl], { h with type := held_of_not_given hnew }⟩
  | name text => exact ⟨by simp [entries, h.name text rfl], { h with name := held_of_not_given hnew }⟩
  | parameters types =>
    exact ⟨by simp [entries, h.parameters types rfl], { h with parameters := held_of_not_given hnew }⟩
  | varargs b => exact ⟨by simp [entries, h.varargs b rfl], { h with varargs := held_of_not_given hnew }⟩
  | synthetic b =>
    exact ⟨by simp [entries, h.synthetic b rfl], { h with synthetic := held_of_not_given hnew }⟩
  | bridge b => exact ⟨by simp [entries, h.bridge b rfl], { h with bridge := held_of_not_given hnew }⟩

theorem Draft.HeldBy.finished {m : MemberRecord} {d : Draft} (h : (ofDraft d).toOption = some m) :
    d.HeldBy m ∧ ∀ e ∈ m.entries, e.isGiven d = false → e.IsDefault := by
  have hm := Json.eq_ok h
  unfold ofDraft at hm
  split at hm
  · cases hm
  · next type htype =>
    split at hm
    · cases hm
    · next name hname =>
      cases hm
      refine ⟨⟨?_, ?_, ?_, ?_, ?_, ?_, ?_, ?_⟩, ?_⟩ <;>
        simp_all [entries, Entry.isGiven, Entry.IsDefault]

theorem reflects (m : MemberRecord) :
    understood.Reflects {} (fun d => (ofDraft d).toOption) Entry.Told Entry.IsDefault m.entries
      (Draft.HeldBy m) m where
  toDescribes := m.describes
  meant := told_of_column
  entered _ _ hnew h := h.entered hnew
  finished _ h := Draft.HeldBy.finished h

theorem laidOut_of_ofValue? {m : MemberRecord} {v : Value} (h : ofValue? v = some m) : m.LaidOut v :=
  Json.RecordColumns.laysOut_of_record? m.reflects h

end MemberRecord

namespace ClassRecord

theorem readEntry_takesOnly (key : String) (d : Draft) : TakesOnly HasAssigned (readEntry key d) := by
  intro s d' rest hs h
  unfold readEntry at h
  split at h
  · exact Json.onceOnly_takes (Json.stringOf_takesOnly .string) hs h fun _ => rfl
  split at h
  · exact Json.onceOnly_takes Modifiers.read_takesOnly hs h fun _ => rfl
  split at h
  · exact Json.onceOnly_takes MemberRecord.read_takesOnly.sequence hs h fun _ => rfl
  split at h
  · exact Json.onceOnly_takes MemberRecord.read_takesOnly.sequence hs h fun _ => rfl
  · exact Json.unknown_takes hs h

theorem readElements_takesOnly : TakesOnly (HasItems true) readElements := by
  have hmembers := MemberRecord.read_takesOnly.sequence
  intro s c rest hs h
  unfold readElements at h
  refine Json.element?_takes (Json.stringOf_takesOnly .string) hs h fun name s hs _ h => ?_
  cases name with
  | none => cases h
  | some name =>
    refine Json.element?_takes Modifiers.read_takesOnly hs h fun _ s hs _ h => ?_
    refine Json.element?_takes hmembers hs h fun _ s hs _ h => ?_
    refine Json.element?_takes hmembers hs h fun _ s hs _ h => ?_
    exact Json.endOfRecord_takes hs h

theorem read_takesOnly : TakesOnly HasValue read := by
  rw [read_eq]
  exact Json.readRecord_takesOnly .classRecord readElements_takesOnly readEntry_takesOnly

/-! ### Values of classes -/

theorem told_of_members {v : Value} {ms : List MemberRecord}
    (h : v.list? MemberRecord.ofValue? = some ms) :
    ∃ vs, v = .array vs ∧ List.Forall₂ MemberRecord.LaidOut ms vs := by
  obtain ⟨vs, rfl, hvs⟩ := Json.forall₂_of_list? h
  exact ⟨vs, rfl, hvs.imp fun _ _ => MemberRecord.laidOut_of_ofValue?⟩

theorem told_of_column : ∀ c ∈ columns, ∀ v, ∀ e ∈ c.2 v, Entry.Told v e := by
  simp only [columns, List.forall_mem_cons, Option.mem_def, Option.map_eq_some_iff,
    forall_exists_index, and_imp, forall_apply_eq_imp_iff₂]
  refine ⟨fun _ _ h => ?_, fun _ _ h => ?_, fun _ _ h => ?_, fun _ _ h => ?_, by simp⟩
  · exact Value.eq_of_text? h ▸ .name _
  · obtain ⟨text, rfl, hm⟩ := Modifiers.text_of_ofValue? h
    exact .modifiers hm
  · obtain ⟨vs, rfl, hvs⟩ := told_of_members h
    exact .fields hvs
  · obtain ⟨vs, rfl, hvs⟩ := told_of_members h
    exact .methods hvs

theorem Draft.HeldBy.entered {c : ClassRecord} {d : Draft} {e : Entry} (hnew : e.isGiven d = false)
    (h : (e.enter d).HeldBy c) : e ∈ c.entries ∧ d.HeldBy c := by
  cases e with
  | name text => exact ⟨by simp [entries, h.name text rfl], { h with name := held_of_not_given hnew }⟩
  | modifiers w =>
    exact ⟨by simp [entries, h.modifiers w rfl], { h with modifiers := held_of_not_given hnew }⟩
  | fields ms => exact ⟨by simp [entries, h.fields ms rfl], { h with fields := held_of_not_given hnew }⟩
  | methods ms =>
    exact ⟨by simp [entries, h.methods ms rfl], { h with methods := held_of_not_given hnew }⟩

theorem Draft.HeldBy.finished {c : ClassRecord} {d : Draft} (h : (ofDraft d).toOption = some c) :
    d.HeldBy c ∧ ∀ e ∈ c.entries, e.isGiven d = false → e.IsDefault := by
  have hc := Json.eq_ok h
  unfold ofDraft at hc
  split at hc
  · cases hc
  · next name hname =>
    cases hc
    refine ⟨⟨?_, ?_, ?_, ?_⟩, ?_⟩ <;> simp_all [entries, Entry.isGiven, Entry.IsDefault]

theorem reflects (c : ClassRecord) :
    understood.Reflects {} (fun d => (ofDraft d).toOption) Entry.Told Entry.IsDefault c.entries
      (Draft.HeldBy c) c where
  toDescribes := c.describes
  meant := told_of_column
  entered _ _ hnew h := h.entered hnew
  finished _ h := Draft.HeldBy.finished h

theorem laidOut_of_ofValue? {c : ClassRecord} {v : Value} (h : ofValue? v = some c) : c.LaidOut v :=
  Json.RecordColumns.laysOut_of_record? c.reflects h

/-! ## Texts of catalogs -/

/-- A JSON text of a list in which these records are laid out, one after the other. -/
def ListedIn (cs : List ClassRecord) (text : Bytes) : Prop :=
  ∃ vs, List.Forall₂ LaidOut cs vs ∧ (Value.array vs).HasText text

theorem listOfJson_of_listedIn {cs : List ClassRecord} {text : Bytes} (h : ListedIn cs text) :
    listOfJson text = .ok cs := by
  obtain ⟨vs, hcs, ht⟩ := h
  exact listOfJson_of_laidOut hcs ht

/-- A text that is loaded is the text of a list of layouts. -/
theorem listedIn_of_listOfJson {cs : List ClassRecord} {text : Bytes} (ht : IsText text)
    (h : listOfJson text = .ok cs) : ListedIn cs text := by
  obtain ⟨v, hv⟩ := read_takesOnly.sequence.hasText ht h
  have hlist : v.list? ofValue? = some cs := by
    rw [← listOfJson_eq hv, h]
    rfl
  obtain ⟨vs, rfl, hvs⟩ := Json.forall₂_of_list? hlist
  exact ⟨vs, hvs.imp fun _ _ => laidOut_of_ofValue?, hv⟩

theorem listOfJson_eq_ok_iff {cs : List ClassRecord} {text : Bytes} (ht : IsText text) :
    listOfJson text = .ok cs ↔ ListedIn cs text :=
  ⟨listedIn_of_listOfJson ht, listOfJson_of_listedIn⟩

end ClassRecord

end ClassListing
