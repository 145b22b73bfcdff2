import ClassListing.Modifiers
import ClassListing.Text.Blank
import ClassListing.Text.Hex
import ClassListing.Text.Split

/-!
Modifiers as text in catalogs: names of flags and hexadecimal words with bars between them.
-/

namespace ClassListing.Modifiers

inductive TextFault where
  | emptyFlag
  | unknownFlag
  | badHex
  deriving DecidableEq, Repr

def TextFault.message : TextFault → String
  | .emptyFlag => "encountered empty flag"
  | .unknownFlag => "unrecognized named flag"
  | .badHex => "invalid hex flag"

/-- Reads the digits after `0x`: at least one, after an optional plus sign, and at most a word. -/
def wordOfHex? (digits : List Char) : Option UInt32 :=
  let digits := match digits with
    | '+' :: rest => rest
    | _ => digits
  if digits = [] then none
  else (Text.hexNumber? 0 digits).bind fun n => if n < UInt32.size then some (UInt32.ofNat n) else none

def ofPart (part : List Char) : Except TextFault Modifiers :=
  match part with
  | [] => .error .emptyFlag
  | '0' :: 'x' :: digits =>
    match wordOfHex? digits with
    | some w => .ok ⟨w⟩
    | none => .error .badHex
  | _ =>
    match Flag.ofName? (String.ofList part) with
    | some f => .ok (ofFlag f)
    | none => .error .unknownFlag

/-- The union of the parts; the first bad part decides the error. -/
def ofParts : Modifiers → List (List Char) → Except TextFault Modifiers
  | m, [] => .ok m
  | m, part :: parts =>
    match ofPart (Text.trim part) with
    | .ok n => ofParts (m.union n) parts
    | .error e => .error e

/-- A blank text stands for no modifiers. -/
def ofText (s : String) : Except TextFault Modifiers :=
  if Text.trim s.toList = [] then .ok empty
  else ofParts empty (Text.split '|' s.toList)

def parts (m : Modifiers) : List String :=
  (Flag.all.filter m.has).map Flag.name ++
    if m.undeclared = 0 then []
    else [String.ofList (['0', 'x'] ++ Text.hexDigits m.undeclared.toNat)]

def toText (m : Modifiers) : String := " | ".intercalate m.parts

end ClassListing.Modifiers
