import ClassListing.ClassRecord
import ClassListing.Json.Reader

/-!
Class records as JSON. The written form is compact, with every field in a fixed order. Reading accepts
the fields in any order between unknown keys, and lists of the values in that order; fields with a
default may be missing.
-/

namespace ClassListing

open Json (Bytes Reader)

/-! ## Writing -/

def keyText (key : String) : List Char := '"' :: key.toList ++ ['"', ':']

def writeList {α : Type} (item : α → List Char) (xs : List α) : List Char :=
  '[' :: [','].intercalate (xs.map item) ++ [']']

def writeObject (entries : List (String × List Char)) : List Char :=
  '\x7b' :: [','].intercalate (entries.map fun (k, v) => keyText k ++ v) ++ ['\x7d']

def writeBool (b : Bool) : List Char := if b then "true".toList else "false".toList

namespace Modifiers

def write (m : Modifiers) : List Char := Json.writeString m.toText

def read : Reader Modifiers := fun s =>
  match Json.stringOf .flags s with
  | .error e => .error e
  | .ok (text, rest) =>
    match ofText text with
    | .ok m => .ok (m, rest)
    | .error f => .error (.misfit (.flags f))

end Modifiers

namespace MemberKind

def write? (k : Option MemberKind) : List Char :=
  match k with
  | none => "null".toList
  | some k => Json.writeString k.text

def ofVariant (text : String) : Except Json.Error MemberKind :=
  match ofText? text with
  | some k => .ok k
  | none => .error (.misfit (.unknownKind text))

/-- A kind is a string, or an object with the kind as its only key and `null` as the value. -/
def read : Reader MemberKind := fun s =>
  match Json.skipBlank s with
  | [] => .error (.ended .value)
  | b :: r =>
    if b = 0x22 then
      match Json.readString r with
      | .error e => .error e
      | .ok (text, rest) => (ofVariant text).map fun k => (k, rest)
    else if b = 0x7B then
      match Json.onlyKey r with
      | .error e => .error e
      | .ok (text, r) =>
        match ofVariant text with
        | .error e => .error e
        | .ok k =>
          match Json.colon r with
          | .error e => .error e
          | .ok r =>
            match Json.unit r with
            | .error e => .error e
            | .ok (_, r) =>
              match Json.skipBlank r with
              | [] => .error (.ended .object)
              | b :: r => if b = 0x7D then .ok (k, r) else .error (.grammar .expectedValue)
    else .error (.grammar .expectedValue)

def read? : Reader (Option MemberKind) := fun s =>
  match Json.skipBlank s with
  | [] => .error (.ended .value)
  | b :: r =>
    if b = 0x6E then (Json.expectTail Json.nullTail r).map fun r => (none, r)
    else (read (b :: r)).map fun p => (some p.1, p.2)

end MemberKind

namespace MemberRecord

def write (r : MemberRecord) : List Char :=
  writeObject [
    ("kind", MemberKind.write? r.kind),
    ("modifiers", r.modifiers.write),
    ("type", Json.writeString r.type),
    ("name", Json.writeString r.name),
    ("parameters", writeList Json.writeString r.parameters),
    ("varargs", writeBool r.varargs),
    ("synthetic", writeBool r.synthetic),
    ("bridge", writeBool r.bridge)]

structure Draft where
  kind : Option (Option MemberKind) := none
  modifiers : Option Modifiers := none
  type : Option String := none
  name : Option String := none
  parameters : Option (List String) := none
  varargs : Option Bool := none
  synthetic : Option Bool := none
  bridge : Option Bool := none

def ofDraft (d : Draft) : Except Json.Error MemberRecord :=
  match d.type with
  | none => .error (.misfit (.missingField "type"))
  | some type =>
    match d.name with
    | none => .error (.misfit (.missingField "name"))
    | some name => .ok {
        kind := d.kind.getD none
        modifiers := d.modifiers.getD .empty
        type
        name
        parameters := d.parameters.getD []
        varargs := d.varargs.getD false
        synthetic := d.synthetic.getD false
        bridge := d.bridge.getD false }

def readEntry (key : String) (d : Draft) : Reader Draft := fun s =>
  if key = "kind" then
    (Json.onceOnly key d.kind MemberKind.read? s).map fun (x, s) => ({ d with kind := some x }, s)
  else if key = "modifiers" then
    (Json.onceOnly key d.modifiers Modifiers.read s).map fun (x, s) =>
      ({ d with modifiers := some x }, s)
  else if key = "type" then
    (Json.onceOnly key d.type Json.string s).map fun (x, s) => ({ d with type := some x }, s)
  else if key = "name" then
    (Json.onceOnly key d.name Json.string s).map fun (x, s) => ({ d with name := some x }, s)
  else if key = "parameters" then
    (Json.onceOnly key d.parameters (Json.sequence Json.string) s).map fun (x, s) =>
      ({ d with parameters := some x }, s)
  else if key = "varargs" then
    (Json.onceOnly key d.varargs Json.boolean s).map fun (x, s) => ({ d with varargs := some x }, s)
  else if key = "synthetic" then
    (Json.onceOnly key d.synthetic Json.boolean s).map fun (x, s) =>
      ({ d with synthetic := some x }, s)
  else if key = "bridge" then
    (Json.onceOnly key d.bridge Json.boolean s).map fun (x, s) => ({ d with bridge := some x }, s)
  else
    match Json.colon s with
    | .error e => .error e
    | .ok s => (Json.skipValue s).map fun s => (d, s)

def readElements : Reader MemberRecord := fun s => do
  let (kind, s) ← Json.element? true MemberKind.read? s
  let (modifiers, s) ← Json.element? kind.isNone Modifiers.read s
  let (type, s) ← Json.element? modifiers.isNone Json.string s
  let some type := type | .error (.misfit (.invalidLength 2 .memberRecord))
  let (name, s) ← Json.element? false Json.string s
  let some name := name | .error (.misfit (.invalidLength 3 .memberRecord))
  let (parameters, s) ← Json.element? false (Json.sequence Json.string) s
  let (varargs, s) ← Json.element? false Json.boolean s
  let (synthetic, s) ← Json.element? false Json.boolean s
  let (bridge, s) ← Json.element? false Json.boolean s
  let rest ← Json.endOfRecord s
  return ({
    kind := kind.getD none
    modifiers := modifiers.getD .empty
    type
    name
    parameters := parameters.getD []
    varargs := varargs.getD false
    synthetic := synthetic.getD false
    bridge := bridge.getD false }, rest)

def read : Reader MemberRecord := fun s =>
  match Json.skipBlank s with
  | [] => .error (.ended .value)
  | b :: r =>
    if b = 0x5B then readElements r
    else if b = 0x7B then
      match Json.entries readEntry (b :: r) true {} r with
      | .error e => .error e
      | .ok (d, rest) => (ofDraft d).map fun m => (m, rest)
    else .error (Json.wrongType .memberRecord (b :: r))

end MemberRecord

namespace ClassRecord

def write (r : ClassRecord) : List Char :=
  writeObject [
    ("name", Json.writeString r.name),
    ("modifiers", r.modifiers.write),
    ("fields", writeList MemberRecord.write r.fields),
    ("methods", writeList MemberRecord.write r.methods)]

def toJson (r : ClassRecord) : String := String.ofList r.write

structure Draft where
  name : Option String := none
  modifiers : Option Modifiers := none
  fields : Option (List MemberRecord) := none
  methods : Option (List MemberRecord) := none

def ofDraft (d : Draft) : Except Json.Error ClassRecord :=
  match d.name with
  | none => .error (.misfit (.missingField "name"))
  | some name => .ok {
      name
      modifiers := d.modifiers.getD .empty
      fields := d.fields.getD []
      methods := d.methods.getD [] }

def readEntry (key : String) (d : Draft) : Reader Draft := fun s =>
  if key = "name" then
    (Json.onceOnly key d.name Json.string s).map fun (x, s) => ({ d with name := some x }, s)
  else if key = "modifiers" then
    (Json.onceOnly key d.modifiers Modifiers.read s).map fun (x, s) =>
      ({ d with modifiers := some x }, s)
  else if key = "fields" then
    (Json.onceOnly key d.fields (Json.sequence MemberRecord.read) s).map fun (x, s) =>
      ({ d with fields := some x }, s)
  else if key = "methods" then
    (Json.onceOnly key d.methods (Json.sequence MemberRecord.read) s).map fun (x, s) =>
      ({ d with methods := some x }, s)
  else
    match Json.colon s with
    | .error e => .error e
    | .ok s => (Json.skipValue s).map fun s => (d, s)

def readElements : Reader ClassRecord := fun s => do
  let (name, s) ← Json.element? true Json.string s
  let some name := name | .error (.misfit (.invalidLength 0 .classRecord))
  let (modifiers, s) ← Json.element? false Modifiers.read s
  let (fields, s) ← Json.element? false (Json.sequence MemberRecord.read) s
  let (methods, s) ← Json.element? false (Json.sequence MemberRecord.read) s
  let rest ← Json.endOfRecord s
  return ({
    name
    modifiers := modifiers.getD .empty
    fields := fields.getD []
    methods := methods.getD [] }, rest)

def read : Reader ClassRecord := fun s =>
  match Json.skipBlank s with
  | [] => .error (.ended .value)
  | b :: r =>
    if b = 0x5B then readElements r
    else if b = 0x7B then
      match Json.entries readEntry (b :: r) true {} r with
      | .error e => .error e
      | .ok (d, rest) => (ofDraft d).map fun c => (c, rest)
    else .error (Json.wrongType .classRecord (b :: r))

def ofJson (text : Bytes) : Except Json.Error ClassRecord := Json.whole read text

def listOfJson (text : Bytes) : Except Json.Error (List ClassRecord) :=
  Json.whole (Json.sequence read) text

end ClassRecord

end ClassListing
