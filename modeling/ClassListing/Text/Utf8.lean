/-!
Reading bytes as text. `decode?` refuses ill-formed bytes; `decodeLossy` puts one replacement
character for each longest piece that starts like a character and does not continue as one.
-/

namespace ClassListing.Utf8

theorem fromUTF8?_eq_some {b : ByteArray} {s : String} : String.fromUTF8? b = some s ↔ b = s.toUTF8 := by
  unfold String.fromUTF8?
  constructor
  · intro h
    split at h
    · cases h
      rfl
    · cases h
  · rintro rfl
    exact dif_pos s.isValidUTF8

def decode? (bytes : List UInt8) : Option String :=
  String.fromUTF8? ⟨bytes.toArray⟩

def replacement : Char := '\uFFFD'

/-- `10xxxxxx`, the form of every byte of a character but its first. -/
def isContinuation (b : UInt8) : Bool := 0x80 ≤ b && b ≤ 0xBF

/-- Which second bytes may follow a given first byte of a three byte character; the others would
make an overlong form or a surrogate. -/
def secondOfThree (a b : UInt8) : Bool :=
  if a = 0xE0 then 0xA0 ≤ b && b ≤ 0xBF
  else if a = 0xED then 0x80 ≤ b && b ≤ 0x9F
  else isContinuation b

/-- Which second bytes may follow a given first byte of a four byte character; the others would
make an overlong form or a number beyond the last code point. -/
def secondOfFour (a b : UInt8) : Bool :=
  if a = 0xF0 then 0x90 ≤ b && b ≤ 0xBF
  else if a = 0xF4 then 0x80 ≤ b && b ≤ 0x8F
  else isContinuation b

def payload (b : UInt8) : Nat := b.toNat % 64

def decodeLossy : List UInt8 → List Char
  | [] => []
  | a :: r =>
    if a < 0x80 then Char.ofNat a.toNat :: decodeLossy r
    else if 0xC2 ≤ a && a ≤ 0xDF then
      match r with
      | [] => [replacement]
      | b :: r₁ =>
        if isContinuation b then
          Char.ofNat (a.toNat % 32 * 64 + payload b) :: decodeLossy r₁
        else replacement :: decodeLossy (b :: r₁)
    else if 0xE0 ≤ a && a ≤ 0xEF then
      match r with
      | [] => [replacement]
      | b :: r₁ =>
        if secondOfThree a b then
          match r₁ with
          | [] => [replacement]
          | c :: r₂ =>
            if isContinuation c then
              Char.ofNat ((a.toNat % 16 * 64 + payload b) * 64 + payload c) :: decodeLossy r₂
            else replacement :: decodeLossy (c :: r₂)
        else replacement :: decodeLossy (b :: r₁)
    else if 0xF0 ≤ a && a ≤ 0xF4 then
      match r with
      | [] => [replacement]
      | b :: r₁ =>
        if secondOfFour a b then
          match r₁ with
          | [] => [replacement]
          | c :: r₂ =>
            if isContinuation c then
              match r₂ with
              | [] => [replacement]
              | d :: r₃ =>
                if isContinuation d then
                  Char.ofNat (((a.toNat % 8 * 64 + payload b) * 64 + payload c) * 64 + payload d)
                    :: decodeLossy r₃
                else replacement :: decodeLossy (d :: r₃)
            else replacement :: decodeLossy (c :: r₂)
        else replacement :: decodeLossy (b :: r₁)
    else replacement :: decodeLossy r

end ClassListing.Utf8
