import ClassListing.Json.Text

/-!
Numbers of JSON. No record holds a number, so a number is read only to say what was found instead of
something else. Integers of 64 bits are exact. Any other number is the double made of its first
digits, as many as fit in 64 bits, scaled by a power of ten.
-/

namespace ClassListing.Json

def isDigit (b : UInt8) : Bool := 0x30 ≤ b && b ≤ 0x39

def digitValue (b : UInt8) : Nat := b.toNat - 48

def isDot (b : UInt8) : Bool := b = 0x2E

def isExponentMark (b : UInt8) : Bool := b = 0x65 || b = 0x45

def startsWith (p : UInt8 → Bool) : Bytes → Bool
  | [] => false
  | b :: _ => p b

/-- The digits read so far as a number, how many were read, and what follows. A digit that would
take the number out of 64 bits is not read. -/
def significand (n count : Nat) : Bytes → Nat × Nat × Bytes
  | [] => (n, count, [])
  | b :: r =>
    if isDigit b && 10 * n + digitValue b < UInt64.size then
      significand (10 * n + digitValue b) (count + 1) r
    else (n, count, b :: r)

def scaled (x : Float) (e : Int) : Nat → Except Error Float
  | 0 => .ok x
  | fuel + 1 =>
    if e.natAbs ≤ 308 then
      let p := Float.ofScientific 1 false e.natAbs
      if 0 ≤ e then
        if (x * p).isInf then .error (.grammar .numberOutOfRange) else .ok (x * p)
      else .ok (x / p)
    else if x == 0.0 then .ok x
    else if 0 ≤ e then .error (.grammar .numberOutOfRange)
    else scaled (x / Float.ofScientific 1 false 308) (e + 308) fuel

def signed (negative : Bool) (x : Float) : Found := .float (if negative then -x else x).toBits

def floatOf (negative : Bool) (n : Nat) (e : Int) : Except Error Found :=
  (scaled n.toUInt64.toFloat e (e.natAbs / 308 + 2)).map (signed negative)

/-- What follows the mark of an exponent. An exponent beyond 32 bits makes zero or no number. -/
def exponentPart (negative : Bool) (n : Nat) (e : Int) (s : Bytes) : Except Error Found :=
  let (down, s) := match s with
    | b :: r => if b = 0x2B then (false, r) else if b = 0x2D then (true, r) else (false, b :: r)
    | [] => (false, [])
  match s with
  | [] => .error (.ended .value)
  | b :: r =>
    if isDigit b then
      let x := ((b :: r).takeWhile isDigit).foldl (fun x b => 10 * x + digitValue b) 0
      if 0x80000000 ≤ x then
        if n ≠ 0 && !down then .error (.grammar .numberOutOfRange)
        else .ok (signed negative 0.0)
      else floatOf negative n (if down then e - x else e + x)
    else .error (.grammar .invalidNumber)

def decimalPart (negative : Bool) (n : Nat) (e : Int) (s : Bytes) : Except Error Found :=
  let (n, count, rest) := significand n 0 s
  if count = 0 && !startsWith isDigit rest then
    if rest = [] then .error (.ended .value) else .error (.grammar .invalidNumber)
  else
    let e := e - count
    match rest.dropWhile isDigit with
    | b :: r => if isExponentMark b then exponentPart negative n e r else floatOf negative n e
    | [] => floatOf negative n e

def wholeNumber (negative : Bool) (n : Nat) : Found :=
  if !negative then .integer n
  else if n = 0 || 0x8000000000000000 < n then signed true n.toUInt64.toFloat
  else .integer (-n)

def afterWhole (negative : Bool) (n extra : Nat) : Bytes → Except Error Found
  | b :: r =>
    if isDot b then decimalPart negative n extra r
    else if isExponentMark b then exponentPart negative n extra r
    else if extra = 0 then .ok (wholeNumber negative n)
    else floatOf negative n extra
  | [] => if extra = 0 then .ok (wholeNumber negative n) else floatOf negative n extra

def findNumber (negative : Bool) : Bytes → Except Error Found
  | [] => .error (.ended .value)
  | b :: r =>
    if b = 0x30 then
      if startsWith isDigit r then .error (.grammar .invalidNumber) else afterWhole negative 0 0 r
    else if isDigit b then
      let (n, _, rest) := significand 0 0 (b :: r)
      afterWhole negative n (rest.takeWhile isDigit).length (rest.dropWhile isDigit)
    else .error (.grammar .invalidNumber)

/-- Passes over digits, an exponent after its mark, and so on. Unlike `findNumber` this never looks at
the size of the number, and a number cut short is an invalid number. -/
def skipExponent (s : Bytes) : Except Error Bytes :=
  let s := match s with
    | b :: r => if b = 0x2B || b = 0x2D then r else b :: r
    | [] => []
  if startsWith isDigit s then .ok (s.dropWhile isDigit) else .error (.grammar .invalidNumber)

def skipFraction (s : Bytes) : Except Error Bytes :=
  if startsWith isDigit s then
    match s.dropWhile isDigit with
    | b :: r => if isExponentMark b then skipExponent r else .ok (b :: r)
    | [] => .ok []
  else .error (.grammar .invalidNumber)

def skipAfterWhole : Bytes → Except Error Bytes
  | b :: r =>
    if isDot b then skipFraction r
    else if isExponentMark b then skipExponent r
    else .ok (b :: r)
  | [] => .ok []

def skipNumber : Bytes → Except Error Bytes
  | [] => .error (.grammar .invalidNumber)
  | b :: r =>
    if b = 0x30 then
      if startsWith isDigit r then .error (.grammar .invalidNumber) else skipAfterWhole r
    else if isDigit b then skipAfterWhole (r.dropWhile isDigit)
    else .error (.grammar .invalidNumber)

end ClassListing.Json
