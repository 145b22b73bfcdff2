import ClassListing.Json.Error
import ClassListing.Text.Utf8

/-!
Strings of JSON. Writing escapes quotes, backslashes and control characters and nothing else. Reading
works on bytes; the characters are decoded when the closing quote is found, so a fault of an escape
is found before a fault of the encoding.
-/

namespace ClassListing.Json

abbrev Bytes := List UInt8

def backspace : Char := '\x08'

def formFeed : Char := '\x0c'

def escapeChar (c : Char) : List Char :=
  if c = '"' then ['\\', '"']
  else if c = '\\' then ['\\', '\\']
  else if c = backspace then ['\\', 'b']
  else if c = formFeed then ['\\', 'f']
  else if c = '\n' then ['\\', 'n']
  else if c = '\r' then ['\\', 'r']
  else if c = '\t' then ['\\', 't']
  else if c.toNat < 0x20 then
    ['\\', 'u', '0', '0', Nat.digitChar (c.toNat / 16), Nat.digitChar (c.toNat % 16)]
  else [c]

def writeString (s : String) : List Char := '"' :: s.toList.flatMap escapeChar ++ ['"']

def hexByte? (b : UInt8) : Option Nat := Text.hexValue? (Char.ofNat b.toNat)

def hexUnit? (a b c d : UInt8) : Option Nat :=
  match hexByte? a, hexByte? b, hexByte? c, hexByte? d with
  | some a, some b, some c, some d => some (((a * 16 + b) * 16 + c) * 16 + d)
  | _, _, _, _ => none

def simpleEscape? (b : UInt8) : Option UInt8 :=
  if b = 0x22 || b = 0x5C || b = 0x2F then some b
  else if b = 0x62 then some 0x08
  else if b = 0x66 then some 0x0C
  else if b = 0x6E then some 0x0A
  else if b = 0x72 then some 0x0D
  else if b = 0x74 then some 0x09
  else none

def isHighSurrogate (n : Nat) : Bool := 0xD800 ≤ n && n ≤ 0xDBFF

def isLowSurrogate (n : Nat) : Bool := 0xDC00 ≤ n && n ≤ 0xDFFF

def pairPoint (high low : Nat) : Nat := 0x10000 + (high - 0xD800) * 0x400 + (low - 0xDC00)

def reversedBytes (n : Nat) : Bytes := (String.utf8EncodeChar (Char.ofNat n)).reverse

def stringBytes (done : Bytes) : Bytes → Except Error (Bytes × Bytes)
  | [] => .error (.ended .string)
  | b :: r =>
    if b = 0x22 then .ok (done.reverse, r)
    else if b = 0x5C then
      match r with
      | [] => .error (.ended .string)
      | e :: r =>
        if e = 0x75 then
          match r with
          | h₁ :: h₂ :: h₃ :: h₄ :: r =>
            match hexUnit? h₁ h₂ h₃ h₄ with
            | none => .error (.grammar .invalidEscape)
            | some n =>
              if isLowSurrogate n then .error (.grammar .loneSurrogate)
              else if isHighSurrogate n then
                match r with
                | [] => .error (.ended .string)
                | b :: r =>
                  if b = 0x5C then
                    match r with
                    | [] => .error (.ended .string)
                    | e :: r =>
                      if e = 0x75 then
                        match r with
                        | h₁ :: h₂ :: h₃ :: h₄ :: r =>
                          match hexUnit? h₁ h₂ h₃ h₄ with
                          | none => .error (.grammar .invalidEscape)
                          | some low =>
                            if isLowSurrogate low then
                              stringBytes (reversedBytes (pairPoint n low) ++ done) r
                            else .error (.grammar .loneSurrogate)
                        | _ => .error (.ended .string)
                      else .error (.grammar .unpairedEscape)
                  else .error (.grammar .unpairedEscape)
              else stringBytes (reversedBytes n ++ done) r
          | _ => .error (.ended .string)
        else
          match simpleEscape? e with
          | some c => stringBytes (c :: done) r
          | none => .error (.grammar .invalidEscape)
    else if b < 0x20 then .error (.grammar .controlCharacter)
    else stringBytes (b :: done) r

def readString (s : Bytes) : Except Error (String × Bytes) :=
  match stringBytes [] s with
  | .error e => .error e
  | .ok (bytes, rest) =>
    match Utf8.decode? bytes with
    | some text => .ok (text, rest)
    | none => .error (.grammar .invalidUnicode)

/-- Passes over a string whose opening quote has been read. Only its form is checked, not which
characters its bytes and escapes stand for. -/
def skipString : Bytes → Except Error Bytes
  | [] => .error (.ended .string)
  | b :: r =>
    if b = 0x22 then .ok r
    else if b = 0x5C then
      match r with
      | [] => .error (.ended .string)
      | e :: r =>
        if e = 0x75 then
          match r with
          | h₁ :: h₂ :: h₃ :: h₄ :: r =>
            match hexUnit? h₁ h₂ h₃ h₄ with
            | none => .error (.grammar .invalidEscape)
            | some _ => skipString r
          | _ => .error (.ended .string)
        else
          match simpleEscape? e with
          | some _ => skipString r
          | none => .error (.grammar .invalidEscape)
    else if b < 0x20 then .error (.grammar .controlCharacter)
    else skipString r

end ClassListing.Json
