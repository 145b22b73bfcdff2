import ClassListing.Json.Number

/-!
Reading JSON values of a known kind. A reader takes the text from where a value may begin and gives
the value with what follows it, or the first error. Every element of a list or object takes at least one
byte of the text, so the text they stand in serves as the bound for their number: each turn uses up one
byte of the bound, and the text from the opening bracket on is always enough.
-/

namespace ClassListing.Json

abbrev Reader (α : Type) := Bytes → Except Error (α × Bytes)

def isBlank (b : UInt8) : Bool := b = 0x20 || b = 0x0A || b = 0x09 || b = 0x0D

def skipBlank (s : Bytes) : Bytes := s.dropWhile isBlank

def nullTail : Bytes := [0x75, 0x6C, 0x6C]

def trueTail : Bytes := [0x72, 0x75, 0x65]

def falseTail : Bytes := [0x61, 0x6C, 0x73, 0x65]

def expectTail : Bytes → Bytes → Except Error Bytes
  | [], s => .ok s
  | _ :: _, [] => .error (.ended .value)
  | w :: ws, b :: r => if w = b then expectTail ws r else .error (.grammar .expectedIdent)

/-- The error for a value, not preceded by blanks, that is not of the kind expected. The value is
read far enough to say what it is; a fault inside it is found first. -/
def wrongType (e : Expected) (s : Bytes) : Error :=
  let found : Except Error Found :=
    match s with
    | [] => .error (.grammar .expectedValue)
    | b :: r =>
      if b = 0x6E then (expectTail nullTail r).map fun _ => .null
      else if b = 0x74 then (expectTail trueTail r).map fun _ => .boolean true
      else if b = 0x66 then (expectTail falseTail r).map fun _ => .boolean false
      else if b = 0x2D then findNumber true r
      else if isDigit b then findNumber false (b :: r)
      else if b = 0x22 then (readString r).map fun p => .string p.1
      else if b = 0x5B then .ok .sequence
      else if b = 0x7B then .ok .map
      else .error (.grammar .expectedValue)
  match found with
  | .error err => err
  | .ok f => .misfit (.invalidType f e)

def stringOf (e : Expected) : Reader String := fun s =>
  match skipBlank s with
  | [] => .error (.ended .value)
  | b :: r => if b = 0x22 then readString r else .error (wrongType e (b :: r))

def string : Reader String := stringOf .string

def boolean : Reader Bool := fun s =>
  match skipBlank s with
  | [] => .error (.ended .value)
  | b :: r =>
    if b = 0x74 then (expectTail trueTail r).map fun r => (true, r)
    else if b = 0x66 then (expectTail falseTail r).map fun r => (false, r)
    else .error (wrongType .boolean (b :: r))

def unit : Reader Unit := fun s =>
  match skipBlank s with
  | [] => .error (.ended .value)
  | b :: r =>
    if b = 0x6E then (expectTail nullTail r).map fun r => ((), r)
    else .error (wrongType .unit (b :: r))

inductive Next where
  | finished (rest : Bytes)
  | more (s : Bytes)

/-- Goes to the next element of a list; before the first there is no comma. -/
def nextElement (first : Bool) (s : Bytes) : Except Error Next :=
  match skipBlank s with
  | [] => .error (.ended .list)
  | b :: r =>
    if b = 0x5D then .ok (.finished r)
    else if first then .ok (.more (b :: r))
    else if b = 0x2C then
      match skipBlank r with
      | [] => .error (.ended .value)
      | c :: r => if c = 0x5D then .error (.grammar .trailingComma) else .ok (.more (c :: r))
    else .error (.grammar .expectedCommaOrBracket)

def elements {α : Type} (element : Reader α) : Bytes → Bool → List α → Reader (List α)
  | [], _, _, _ => .error (.ended .list)
  | _ :: bound, first, done, s =>
    match nextElement first s with
    | .error e => .error e
    | .ok (.finished rest) => .ok (done.reverse, rest)
    | .ok (.more s) =>
      match element s with
      | .error e => .error e
      | .ok (x, s) => elements element bound false (x :: done) s

def sequence {α : Type} (element : Reader α) : Reader (List α) := fun s =>
  match skipBlank s with
  | [] => .error (.ended .value)
  | b :: r =>
    if b = 0x5B then elements element (b :: r) true [] r
    else .error (wrongType .sequence (b :: r))

def nextKey (first : Bool) (s : Bytes) : Except Error Next :=
  match skipBlank s with
  | [] => .error (.ended .object)
  | b :: r =>
    if b = 0x7D then .ok (.finished r)
    else if first then
      if b = 0x22 then .ok (.more r) else .error (.grammar .keyMustBeString)
    else if b = 0x2C then
      match skipBlank r with
      | [] => .error (.ended .value)
      | c :: r =>
        if c = 0x22 then .ok (.more r)
        else if c = 0x7D then .error (.grammar .trailingComma)
        else .error (.grammar .keyMustBeString)
    else .error (.grammar .expectedCommaOrBrace)

def onlyKey : Reader String := fun s =>
  match skipBlank s with
  | [] => .error (.ended .object)
  | b :: r => if b = 0x22 then readString r else .error (.grammar .keyMustBeString)

def colon (s : Bytes) : Except Error Bytes :=
  match skipBlank s with
  | [] => .error (.ended .object)
  | b :: r => if b = 0x3A then .ok r else .error (.grammar .expectedColon)

/-- Reads the entries of an object; `entry` continues after a key, before its colon. -/
def entries {δ : Type} (entry : String → δ → Reader δ) : Bytes → Bool → δ → Reader δ
  | [], _, _, _ => .error (.ended .object)
  | _ :: bound, first, d, s =>
    match nextKey first s with
    | .error e => .error e
    | .ok (.finished rest) => .ok (d, rest)
    | .ok (.more s) =>
      match readString s with
      | .error e => .error e
      | .ok (key, s) =>
        match entry key d s with
        | .error e => .error e
        | .ok (d, s) => entries entry bound false d s

/-- The value of a key that may be given only once. A second one is refused before its value is read. -/
def onceOnly {α : Type} (key : String) (old : Option α) (value : Reader α) : Reader α := fun s =>
  if old.isSome then .error (.misfit (.duplicateField key))
  else
    match colon s with
    | .error e => .error e
    | .ok s => value s

def element? {α : Type} (first : Bool) (value : Reader α) : Reader (Option α) := fun s =>
  match nextElement first s with
  | .error e => .error e
  | .ok (.finished _) => .ok (none, s)
  | .ok (.more s) =>
    match value s with
    | .error e => .error e
    | .ok (x, s) => .ok (some x, s)

def endOfRecord (s : Bytes) : Except Error Bytes :=
  match skipBlank s with
  | [] => .error (.ended .list)
  | b :: r =>
    if b = 0x5D then .ok r
    else if b = 0x2C && (skipBlank r).head? = some 0x5D then .error (.grammar .trailingComma)
    else .error (.grammar .trailingCharacters)

def whole {α : Type} (value : Reader α) (s : Bytes) : Except Error α :=
  match value s with
  | .error e => .error e
  | .ok (x, rest) => if skipBlank rest = [] then .ok x else .error (.grammar .trailingCharacters)

inductive Skip where
  | atValue
  | atKey
  | after

inductive Bracket where
  | list
  | object

def skipFrom : Bytes → Skip → List Bracket → Bytes → Except Error Bytes
  | [], _, _, _ => .error (.ended .value)
  | _ :: bound, .atValue, outer, s =>
    match skipBlank s with
    | [] => .error (.ended .value)
    | b :: r =>
      let scalar (rest : Except Error Bytes) : Except Error Bytes :=
        match rest with
        | .error e => .error e
        | .ok r => skipFrom bound .after outer r
      if b = 0x6E then scalar (expectTail nullTail r)
      else if b = 0x74 then scalar (expectTail trueTail r)
      else if b = 0x66 then scalar (expectTail falseTail r)
      else if b = 0x2D then scalar (skipNumber r)
      else if isDigit b then scalar (skipNumber (b :: r))
      else if b = 0x22 then scalar (skipString r)
      else if b = 0x5B then
        match skipBlank r with
        | [] => .error (.ended .list)
        | c :: r =>
          if c = 0x5D then skipFrom bound .after outer r
          else skipFrom bound .atValue (.list :: outer) (c :: r)
      else if b = 0x7B then
        match skipBlank r with
        | [] => .error (.ended .object)
        | c :: r =>
          if c = 0x7D then skipFrom bound .after outer r
          else skipFrom bound .atKey (.object :: outer) (c :: r)
      else .error (.grammar .expectedValue)
  | _ :: bound, .atKey, outer, s =>
    match skipBlank s with
    | [] => .error (.ended .object)
    | b :: r =>
      if b = 0x22 then
        match skipString r with
        | .error e => .error e
        | .ok r =>
          match colon r with
          | .error e => .error e
          | .ok r => skipFrom bound .atValue outer r
      else .error (.grammar .keyMustBeString)
  | _ :: _, .after, [], s => .ok s
  | _ :: bound, .after, .list :: outer, s =>
    match skipBlank s with
    | [] => .error (.ended .list)
    | b :: r =>
      if b = 0x2C then skipFrom bound .atValue (.list :: outer) r
      else if b = 0x5D then skipFrom bound .after outer r
      else .error (.grammar .expectedCommaOrBracket)
  | _ :: bound, .after, .object :: outer, s =>
    match skipBlank s with
    | [] => .error (.ended .object)
    | b :: r =>
      if b = 0x2C then skipFrom bound .atKey (.object :: outer) r
      else if b = 0x7D then skipFrom bound .after outer r
      else .error (.grammar .expectedCommaOrBrace)

theorem skipFrom_nil (turn : Skip) (outer : List Bracket) (s : Bytes) :
    skipFrom [] turn outer s = .error (.ended .value) := by
  rw [skipFrom]

/-- Passes over the value of an unknown key. Each turn but the last takes at least one byte, so the text
and one byte more are enough for a bound. -/
def skipValue (s : Bytes) : Except Error Bytes := skipFrom (0 :: s) .atValue [] s

end ClassListing.Json
