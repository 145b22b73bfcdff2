import ClassListing.Proofs.Json.Reading
import ClassListing.Proofs.Modifiers.Text

/-!
# The entries of class records

A record is a list of entries, one for each key. Every entry is read as it was written and enters its value
into the draft of the record, so that a written record is read as the same record.
-/

namespace ClassListing

set_option autoImplicit false

open Json (Reads Opens)

/-! ## Values -/

theorem Modifiers.read_write (m : Modifiers) : Reads read m.write m := by
  intro rest
  rw [write, read, Json.stringOf_reads .flags m.toText rest]
  simp only [ofText_toText]

theorem MemberKind.read?_write? (k : Option MemberKind) : Reads read? (write? k) k := by
  intro rest
  cases k with
  | none =>
    change (Json.expectTail Json.nullTail (Json.nullTail ++ rest)).map (fun r => (none, r)) = _
    rw [Json.expectTail_append]
    rfl
  | some k =>
    rw [write?, Json.encode_writeString, read?, Json.skipBlank_cons rfl]
    simp only [read, Json.skipBlank_cons (rfl : Json.isBlank 0x22 = false), Json.readString_escaped,
      ofVariant, ofText?_text]
    rfl

theorem Json.opens_writeString (s : String) : Opens (writeString s) := by
  have h := encode_writeString s []
  rw [List.append_nil] at h
  exact ⟨_, _, h, rfl, by decide⟩

theorem Json.opens_writeObject (es : List (String × List Char)) : Opens (writeObject es) :=
  ⟨0x7B, _, rfl, rfl, by decide⟩

theorem Json.strings_read_write (xs : List String) :
    Reads (sequence string) (writeList writeString xs) xs :=
  sequence_reads fun s _ => ⟨stringOf_reads .string s, opens_writeString s⟩

/-! ## Members -/

namespace MemberRecord

inductive Entry where
  | kind (k : Option MemberKind)
  | modifiers (m : Modifiers)
  | type (text : String)
  | name (text : String)
  | parameters (types : List String)
  | varargs (b : Bool)
  | synthetic (b : Bool)
  | bridge (b : Bool)

namespace Entry

def key : Entry → String
  | kind _ => "kind"
  | modifiers _ => "modifiers"
  | type _ => "type"
  | name _ => "name"
  | parameters _ => "parameters"
  | varargs _ => "varargs"
  | synthetic _ => "synthetic"
  | bridge _ => "bridge"

theorem plainText_key (e : Entry) : Json.PlainText e.key := by
  cases e <;> (simp only [key]; decide)

def isGiven (d : Draft) : Entry → Bool
  | kind _ => d.kind.isSome
  | modifiers _ => d.modifiers.isSome
  | type _ => d.type.isSome
  | name _ => d.name.isSome
  | parameters _ => d.parameters.isSome
  | varargs _ => d.varargs.isSome
  | synthetic _ => d.synthetic.isSome
  | bridge _ => d.bridge.isSome

def enter (d : Draft) : Entry → Draft
  | kind k => { d with kind := some k }
  | modifiers m => { d with modifiers := some m }
  | type text => { d with type := some text }
  | name text => { d with name := some text }
  | parameters types => { d with parameters := some types }
  | varargs b => { d with varargs := some b }
  | synthetic b => { d with synthetic := some b }
  | bridge b => { d with bridge := some b }

def Spelled : Entry → List Char → Prop
  | kind k, text => Reads MemberKind.read? text k
  | modifiers m, text => Reads Modifiers.read text m
  | type s, text => Reads Json.string text s
  | name s, text => Reads Json.string text s
  | parameters types, text => Reads (Json.sequence Json.string) text types
  | varargs b, text => Reads Json.boolean text b
  | synthetic b, text => Reads Json.boolean text b
  | bridge b, text => Reads Json.boolean text b

def write : Entry → List Char
  | kind k => MemberKind.write? k
  | modifiers m => m.write
  | type s => Json.writeString s
  | name s => Json.writeString s
  | parameters types => writeList Json.writeString types
  | varargs b => writeBool b
  | synthetic b => writeBool b
  | bridge b => writeBool b

theorem spelled_write (e : Entry) : e.Spelled e.write := by
  cases e with
  | kind k => exact MemberKind.read?_write? k
  | modifiers m => exact m.read_write
  | type s => exact Json.stringOf_reads .string s
  | name s => exact Json.stringOf_reads .string s
  | parameters types => exact Json.strings_read_write types
  | varargs b => exact Json.boolean_reads b
  | synthetic b => exact Json.boolean_reads b
  | bridge b => exact Json.boolean_reads b

theorem readEntry_reads {d : Draft} {e : Entry} {text : List Char} (hd : isGiven d e = false)
    (h : e.Spelled text) : Reads (readEntry e.key d) (':' :: text) (enter d e) := by
  cases e with
  | kind k => exact (Json.reads_onceOnly h _ hd).map fun x => { d with kind := some x }
  | modifiers m => exact (Json.reads_onceOnly h _ hd).map fun x => { d with modifiers := some x }
  | type s => exact (Json.reads_onceOnly h _ hd).map fun x => { d with type := some x }
  | name s => exact (Json.reads_onceOnly h _ hd).map fun x => { d with name := some x }
  | parameters ps => exact (Json.reads_onceOnly h _ hd).map fun x => { d with parameters := some x }
  | varargs b => exact (Json.reads_onceOnly h _ hd).map fun x => { d with varargs := some x }
  | synthetic b => exact (Json.reads_onceOnly h _ hd).map fun x => { d with synthetic := some x }
  | bridge b => exact (Json.reads_onceOnly h _ hd).map fun x => { d with bridge := some x }

theorem isGiven_enter {d : Draft} {e f : Entry} (h : e.key ≠ f.key) :
    isGiven (enter d e) f = isGiven d f := by
  cases e <;> cases f <;> first | rfl | exact absurd rfl h

end Entry

def keys : Json.RecordKeys Entry Draft readEntry where
  key := Entry.key
  isGiven := Entry.isGiven
  enter := Entry.enter
  Spelled := Entry.Spelled
  plainText := Entry.plainText_key
  isGiven_enter := Entry.isGiven_enter
  reads := Entry.readEntry_reads

/-- All entries, in the order in which they are written. -/
def entries (r : MemberRecord) : List Entry :=
  [.kind r.kind, .modifiers r.modifiers, .type r.type, .name r.name, .parameters r.parameters,
   .varargs r.varargs, .synthetic r.synthetic, .bridge r.bridge]

theorem distinct_entries (r : MemberRecord) : (r.entries.map Entry.key).Nodup := by
  change ["kind", "modifiers", "type", "name", "parameters", "varargs", "synthetic", "bridge"].Nodup
  decide

theorem isGiven_empty (e : Entry) : e.isGiven {} = false := by cases e <;> rfl

theorem read_write (r : MemberRecord) : Reads read r.write r := by
  intro rest
  obtain ⟨s, hs, hentries⟩ := keys.entries_of_distinct (fun e _ => e.spelled_write)
    r.distinct_entries (fun e _ => isGiven_empty e) rest
  have htext : Json.encode r.write ++ rest = 0x7B :: s := hs
  rw [htext, read, Json.skipBlank_cons rfl]
  simp only [hentries]
  -- every key has been given, so no default is taken
  rfl

end MemberRecord

/-! ## Classes -/

namespace ClassRecord

inductive Entry where
  | name (text : String)
  | modifiers (m : Modifiers)
  | fields (ms : List MemberRecord)
  | methods (ms : List MemberRecord)

namespace Entry

def key : Entry → String
  | name _ => "name"
  | modifiers _ => "modifiers"
  | fields _ => "fields"
  | methods _ => "methods"

theorem plainText_key (e : Entry) : Json.PlainText e.key := by
  cases e <;> (simp only [key]; decide)

def isGiven (d : Draft) : Entry → Bool
  | name _ => d.name.isSome
  | modifiers _ => d.modifiers.isSome
  | fields _ => d.fields.isSome
  | methods _ => d.methods.isSome

def enter (d : Draft) : Entry → Draft
  | name text => { d with name := some text }
  | modifiers m => { d with modifiers := some m }
  | fields ms => { d with fields := some ms }
  | methods ms => { d with methods := some ms }

def Spelled : Entry → List Char → Prop
  | name s, text => Reads Json.string text s
  | modifiers m, text => Reads Modifiers.read text m
  | fields ms, text => Reads (Json.sequence MemberRecord.read) text ms
  | methods ms, text => Reads (Json.sequence MemberRecord.read) text ms

def write : Entry → List Char
  | name s => Json.writeString s
  | modifiers m => m.write
  | fields ms => writeList MemberRecord.write ms
  | methods ms => writeList MemberRecord.write ms

theorem members_read_write (ms : List MemberRecord) :
    Reads (Json.sequence MemberRecord.read) (writeList MemberRecord.write ms) ms :=
  Json.sequence_reads fun m _ => ⟨m.read_write, Json.opens_writeObject _⟩

theorem spelled_write (e : Entry) : e.Spelled e.write := by
  cases e with
  | name s => exact Json.stringOf_reads .string s
  | modifiers m => exact m.read_write
  | fields ms => exact members_read_write ms
  | methods ms => exact members_read_write ms

theorem readEntry_reads {d : Draft} {e : Entry} {text : List Char} (hd : isGiven d e = false)
    (h : e.Spelled text) : Reads (readEntry e.key d) (':' :: text) (enter d e) := by
  cases e with
  | name s => exact (Json.reads_onceOnly h _ hd).map fun x => { d with name := some x }
  | modifiers m => exact (Json.reads_onceOnly h _ hd).map fun x => { d with modifiers := some x }
  | fields ms => exact (Json.reads_onceOnly h _ hd).map fun x => { d with fields := some x }
  | methods ms => exact (Json.reads_onceOnly h _ hd).map fun x => { d with methods := some x }

theorem isGiven_enter {d : Draft} {e f : Entry} (h : e.key ≠ f.key) :
    isGiven (enter d e) f = isGiven d f := by
  cases e <;> cases f <;> first | rfl | exact absurd rfl h

end Entry

def keys : Json.RecordKeys Entry Draft readEntry where
  key := Entry.key
  isGiven := Entry.isGiven
  enter := Entry.enter
  Spelled := Entry.Spelled
  plainText := Entry.plainText_key
  isGiven_enter := Entry.isGiven_enter
  reads := Entry.readEntry_reads

/-- All entries, in the order in which they are written. -/
def entries (r : ClassRecord) : List Entry :=
  [.name r.name, .modifiers r.modifiers, .fields r.fields, .methods r.methods]

theorem distinct_entries (r : ClassRecord) : (r.entries.map Entry.key).Nodup := by
  change ["name", "modifiers", "fields", "methods"].Nodup
  decide

theorem isGiven_empty (e : Entry) : e.isGiven {} = false := by cases e <;> rfl

theorem read_write (r : ClassRecord) : Reads read r.write r := by
  intro rest
  obtain ⟨s, hs, hentries⟩ := keys.entries_of_distinct (fun e _ => e.spelled_write)
    r.distinct_entries (fun e _ => isGiven_empty e) rest
  have htext : Json.encode r.write ++ rest = 0x7B :: s := hs
  rw [htext, read, Json.skipBlank_cons rfl]
  simp only [hentries]
  rfl

end ClassRecord

end ClassListing
