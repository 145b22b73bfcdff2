import ClassListing.Decimal.Shortest
import ClassListing.Modifiers.Text
import ClassListing.Text.Quoted

/-!
What can be wrong with a JSON text: it breaks the grammar, it ends too early, or it is well formed and
describes something else than what is read.
-/

namespace ClassListing.Json

inductive Breach where
  | expectedValue
  | expectedIdent
  | expectedColon
  | expectedCommaOrBrace
  | expectedCommaOrBracket
  | keyMustBeString
  | trailingComma
  | trailingCharacters
  | invalidNumber
  | numberOutOfRange
  | invalidEscape
  | controlCharacter
  | loneSurrogate
  | unpairedEscape
  | invalidUnicode
  deriving DecidableEq, Repr

def Breach.message : Breach → String
  | expectedValue => "expected value"
  | expectedIdent => "expected ident"
  | expectedColon => "expected `:`"
  | expectedCommaOrBrace => "expected `,` or `\x7d`"
  | expectedCommaOrBracket => "expected `,` or `]`"
  | keyMustBeString => "key must be a string"
  | trailingComma => "trailing comma"
  | trailingCharacters => "trailing characters"
  | invalidNumber => "invalid number"
  | numberOutOfRange => "number out of range"
  | invalidEscape => "invalid escape"
  | controlCharacter => "control character (\\u0000-\\u001F) found while parsing a string"
  | loneSurrogate => "lone leading surrogate in hex escape"
  | unpairedEscape => "unexpected end of hex escape"
  | invalidUnicode => "invalid unicode code point"

inductive Place where
  | value
  | list
  | object
  | string
  deriving DecidableEq, Repr

def Place.message : Place → String
  | value => "EOF while parsing a value"
  | list => "EOF while parsing a list"
  | object => "EOF while parsing an object"
  | string => "EOF while parsing a string"

inductive Found where
  | null
  | boolean (b : Bool)
  | integer (n : Int)
  /-- A number that is no 64 bit integer, by the bits of its double. -/
  | float (bits : UInt64)
  | string (s : String)
  | sequence
  | map
  deriving DecidableEq, Repr

/-- Floating point numbers are positional from five places after the point to sixteen before it. -/
def floatLayout : Decimal.Layout := ⟨-5, 15⟩

def Found.message : Found → String
  | null => "null"
  | boolean b => "boolean `" ++ (if b then "true" else "false") ++ "`"
  | integer n => "integer `" ++ toString n ++ "`"
  | float bits => "floating point `" ++ Decimal.ofFloat floatLayout (Float.ofBits bits) ++ "`"
  | string s => "string " ++ Text.quoted s
  | sequence => "sequence"
  | map => "map"

inductive Expected where
  | string
  | boolean
  | sequence
  | unit
  | flags
  | classRecord
  | memberRecord
  deriving DecidableEq, Repr

def Expected.message : Expected → String
  | string => "a string"
  | boolean => "a boolean"
  | sequence => "a sequence"
  | unit => "unit"
  | flags => "a string value of `|` separated flags"
  | classRecord => "struct ClassRaw"
  | memberRecord => "struct MemberRaw"

/-- The two records that may also be written as sequences, with their number of elements. -/
inductive RecordKind where
  | classRecord
  | memberRecord
  deriving DecidableEq, Repr

def RecordKind.message : RecordKind → String
  | classRecord => "struct ClassRaw with 4 elements"
  | memberRecord => "struct MemberRaw with 8 elements"

inductive Misfit where
  | missingField (name : String)
  | duplicateField (name : String)
  | invalidType (found : Found) (expected : Expected)
  | invalidLength (n : Nat) (expected : RecordKind)
  | unknownKind (text : String)
  | flags (f : Modifiers.TextFault)
  deriving DecidableEq, Repr

def Misfit.message : Misfit → String
  | missingField n => "missing field `" ++ n ++ "`"
  | duplicateField n => "duplicate field `" ++ n ++ "`"
  | invalidType f e => "invalid type: " ++ f.message ++ ", expected " ++ e.message
  | invalidLength n e => "invalid length " ++ toString n ++ ", expected " ++ e.message
  | unknownKind t =>
    "unknown variant `" ++ t ++
      "`, expected one of `field`, `method`, `constructor`, `static_initializer`"
  | flags f => f.message

inductive Error where
  | grammar (b : Breach)
  | ended (p : Place)
  | misfit (m : Misfit)
  deriving DecidableEq, Repr

def Error.message : Error → String
  | grammar b => b.message
  | ended p => p.message
  | misfit m => m.message

inductive Category where
  | syntaxError
  | data
  | eof
  deriving DecidableEq, Repr

def Error.category : Error → Category
  | grammar _ => .syntaxError
  | ended _ => .eof
  | misfit _ => .data

end ClassListing.Json
