import ClassListing.Pattern.Fault
import ClassListing.Pattern.Tree
import ClassListing.Text.Blank
import ClassListing.Text.Hex
import ClassListing.Text.Letter

/-!
Reading the text of a pattern. Every loop uses up at least one character a turn, so the number of
characters that are left is a bound for its turns.
-/

namespace ClassListing.Pattern

/-! ## The text that is left -/

structure Cursor where
  rest : List Char
  place : Place
  spaced : Bool
  names : List (String × Span)

namespace Cursor

def ofText (text : String) : Cursor := ⟨text.toList, .first, false, []⟩

def step (c : Cursor) : Cursor :=
  match c.rest with
  | [] => c
  | x :: rest => { c with rest, place := c.place.after x }

def pastBlanks (comment : Bool) (p : Place) : List Char → List Char × Place
  | [] => ([], p)
  | x :: rest =>
    if comment then pastBlanks (x ≠ '\n') (p.after x) rest
    else if Text.isBlank x then pastBlanks false (p.after x) rest
    else if x = '#' then pastBlanks true (p.after x) rest
    else (x :: rest, p)

def skip (c : Cursor) : Cursor :=
  if c.spaced then
    let (rest, place) := pastBlanks false c.place c.rest
    { c with rest, place }
  else c

def next (c : Cursor) : Cursor := c.step.skip

def sees (text : String) (c : Cursor) : Bool := text.toList.isPrefixOf c.rest

/-- The first character that is not blank; of a comment, its first such character behind the mark. -/
def firstShown? (comment : Bool) : List Char → Option Char
  | [] => none
  | x :: rest =>
    if Text.isBlank x then firstShown? comment rest
    else if !comment && x = '#' then firstShown? true rest
    else some x

def second? (c : Cursor) : Option Char :=
  let rest := c.rest.drop 1
  if c.spaced then firstShown? false rest <|> rest.head? else rest.head?

end Cursor

abbrev Reader := StateT Cursor (Except Finding)

namespace Reader

def char? : Reader (Option Char) := do return (← get).rest.head?

def place : Reader Place := do return (← get).place

def step : Reader Unit := modify Cursor.step

def next : Reader Unit := modify Cursor.next

def skip : Reader Unit := modify Cursor.skip

def atEnd : Reader Bool := do return (← get).rest.isEmpty

def bound : Reader Nat := do return (← get).rest.length + 1

def fail {α : Type} (f : Fault) (s : Span) : Reader α := throw ⟨f, s, none⟩

def failHere {α : Type} (f : Fault) : Reader α := do fail f (.point (← place))

def failFrom {α : Type} (f : Fault) (start : Place) : Reader α := do fail f ⟨start, ← place⟩

def charSpan (c : Char) : Reader Span := do return .ofChar (← place) c

def accept (text : String) : Reader Bool := do
  let c ← get
  if c.sees text then
    set (text.length.repeat Cursor.step c)
    return true
  else return false

/-! ## Numbers -/

def dropBlanks (move : Reader Unit) : Nat → Reader Unit
  | 0 => return
  | turns + 1 => do
    match ← char? with
    | some c => if Text.isBlank c then do move; dropBlanks move turns
    | none => return

def digits : Nat → List Char → Reader (List Char)
  | 0, done => return done.reverse
  | turns + 1, done => do
    match ← char? with
    | some c =>
      if c.isDigit then do
        next
        digits turns (c :: done)
      else return done.reverse
    | none => return done.reverse

def decimalValue (digits : List Char) : Nat :=
  digits.foldl (fun n c => 10 * n + (c.toNat - 48)) 0

/-- A number of thirty-two bits. What is wrong with it is no failure yet. -/
def decimal : Reader (Except Finding Nat) := do
  dropBlanks step (← bound)
  let start ← place
  let ds ← digits (← bound) []
  let span : Span := ⟨start, ← place⟩
  dropBlanks next (← bound)
  if ds.isEmpty then return .error ⟨.repetitionCountEmpty, span, none⟩
  else if 4294967296 ≤ decimalValue ds then return .error ⟨.decimalInvalid, span, none⟩
  else return .ok (decimalValue ds)

def isHexDigit (c : Char) : Bool := (Text.hexValue? c).isSome

def charOfHex? (digits : List Char) : Option Char :=
  match Text.hexNumber? 0 digits with
  | some n => if n.isValidChar then some (Char.ofNat n) else none
  | none => none

def hexFixed : Nat → Bool → List Char → Reader (List Char)
  | 0, _, done => return done.reverse
  | count + 1, first, done => do
    if !first then next
    match ← char? with
    | none => failHere .escapeUnexpectedEnd
    | some c =>
      if isHexDigit c then hexFixed count false (c :: done)
      else fail .escapeHexInvalidDigit (← charSpan c)

def hexBraced (opening : Place) : Nat → List Char → Reader (List Char)
  | 0, done => return done.reverse
  | turns + 1, done => do
    next
    match ← char? with
    | none => failFrom .escapeUnexpectedEnd opening
    | some c =>
      if c = '\x7d' then return done.reverse
      else if isHexDigit c then hexBraced opening turns (c :: done)
      else fail .escapeHexInvalidDigit (← charSpan c)

def hexEscape (start : Place) (letter : Char) : Reader Tree := do
  next
  match ← char? with
  | none => failHere .escapeUnexpectedEnd
  | some c =>
    let first ← place
    if c = '\x7b' then
      let ds ← hexBraced first (← bound) []
      let stop ← place
      next
      if ds.isEmpty then failFrom .escapeHexEmpty first
      else
        match charOfHex? ds with
        | none => fail .escapeHexInvalid ⟨first.after '\x7b', stop⟩
        | some c => return .literal ⟨⟨start, ← place⟩, c, false⟩
    else
      let count := if letter = 'x' then 2 else if letter = 'u' then 4 else 8
      let ds ← hexFixed count true []
      next
      match charOfHex? ds with
      | none => failFrom .escapeHexInvalid first
      | some c => return .literal ⟨⟨start, ← place⟩, c, letter = 'x'⟩

/-! ## Escapes -/

def isMeta (c : Char) : Bool :=
  ['\\', '.', '+', '*', '?', '(', ')', '|', '[', ']', '\x7b', '\x7d', '^', '$', '#', '&', '-',
    '~'].contains c

def isEscapable (c : Char) : Bool :=
  isMeta c || (c.toNat < 128 && !c.isAlphanum && c ≠ '<' && c ≠ '>')

def braced : Nat → List Char → Reader (List Char)
  | 0, done => return done.reverse
  | turns + 1, done => do
    next
    match ← char? with
    | none => failHere .escapeUnexpectedEnd
    | some c => if c = '\x7d' then return done.reverse else braced turns (c :: done)

def property (start : Place) : Reader Tree := do
  next
  match ← char? with
  | none => failHere .escapeUnexpectedEnd
  | some c =>
    if c = '\x7b' then
      let name ← braced (← bound) []
      step
      let valued := name.contains ':' || name.contains '='
      return .property ⟨start, ← place⟩ (if valued then .valued else .named (String.ofList name))
    else if c = '\\' then fail .propertyInvalid (← charSpan c)
    else
      next
      return .property ⟨start, ← place⟩ (.named (String.singleton c))

def isBoundaryChar (c : Char) : Bool := c.isAlpha || c = '-'

def boundaryName : Nat → List Char → Reader (List Char)
  | 0, done => return done.reverse
  | turns + 1, done => do
    match ← char? with
    | none => return done.reverse
    | some c =>
      if isBoundaryChar c then do
        next
        boundaryName turns (c :: done)
      else return done.reverse

def boundaryOfName? (name : String) : Option Anchor :=
  if name = "start" then some .wordStart
  else if name = "end" then some .wordEnd
  else if name = "start-half" then some .wordStartHalf
  else if name = "end-half" then some .wordEndHalf
  else none

def namedBoundary? (start : Place) : Reader (Option Anchor) := do
  let saved ← get
  next
  let first ← place
  match ← char? with
  | none => failFrom .wordBoundaryUnexpectedEnd start
  | some c =>
    if !isBoundaryChar c then
      set saved
      return none
    else
      let name ← boundaryName (← bound) []
      if (← char?) ≠ some '\x7d' then failFrom .wordBoundaryUnclosed saved.place
      else
        let stop ← place
        step
        match boundaryOfName? (String.ofList name) with
        | some a => return some a
        | none => fail .wordBoundaryUnrecognized ⟨first, stop⟩

def wordBoundary (start : Place) : Reader Tree := do
  if (← char?) = some '\x7b' then
    let a ← namedBoundary? start
    return .anchor ⟨start, ← place⟩ (a.getD .wordBoundary)
  else return .anchor ⟨start, ← place⟩ .wordBoundary

def special? (c : Char) : Option Char :=
  match c with
  | 'a' => some '\x07'
  | 'f' => some '\x0c'
  | 't' => some '\t'
  | 'n' => some '\n'
  | 'r' => some '\r'
  | 'v' => some '\x0b'
  | _ => none

def letterClass? (c : Char) : Option (Letter × Bool) :=
  match c with
  | 'd' => some (.digit, false)
  | 's' => some (.blank, false)
  | 'w' => some (.word, false)
  | 'D' => some (.digit, true)
  | 'S' => some (.blank, true)
  | 'W' => some (.word, true)
  | _ => none

def anchorOfLetter? (c : Char) : Option Anchor :=
  match c with
  | 'A' => some .textStart
  | 'z' => some .textEnd
  | 'B' => some .notWordBoundary
  | '<' => some .wordStart
  | '>' => some .wordEnd
  | _ => none

def escape : Reader Tree := do
  let start ← place
  step
  match ← char? with
  | none => failFrom .escapeUnexpectedEnd start
  | some c =>
    if c.isDigit then fail .backreference ⟨start, (← charSpan c).stop⟩
    else if c = 'x' || c = 'u' || c = 'U' then hexEscape start c
    else if c = 'p' || c = 'P' then property start
    else
      step
      let span : Span := ⟨start, ← place⟩
      match letterClass? c with
      | some (l, negated) => return .letter span l negated
      | none =>
        if isEscapable c then return .literal ⟨span, c, false⟩
        else
          match special? c, anchorOfLetter? c with
          | some x, _ => return .literal ⟨span, x, false⟩
          | none, some a => return .anchor span a
          | none, none => if c = 'b' then wordBoundary start else fail .escapeUnrecognized span

def primitive (c : Char) : Reader Tree := do
  let span ← charSpan c
  if c = '\\' then escape
  else
    step
    match c with
    | '.' => return .dot span
    | '^' => return .anchor span .lineStart
    | '$' => return .anchor span .lineEnd
    | _ => return .literal ⟨span, c, false⟩

/-! ## Bracketed classes -/

structure Items where
  span : Span
  items : List ClassItem

namespace Items

def empty (s : Span) : Items := ⟨s, []⟩

def push (u : Items) (i : ClassItem) : Items :=
  ⟨⟨if u.items.isEmpty then i.span.start else u.span.start, i.span.stop⟩, i :: u.items⟩

def toItem (u : Items) : ClassItem :=
  match u.items with
  | [] => .empty u.span
  | [i] => i
  | items => .union u.span items.reverse

end Items

/-- What is open around the current place of a class, the innermost first. -/
inductive ClassFrame where
  | bracket (outer : Items) (opening : Span) (negated : Bool)
  | operand (op : SetOperation) (left : ClassSet)

def asciiName? (c : Cursor) : Option (Bool × String) :=
  match c.rest with
  | '[' :: ':' :: rest =>
    let (negated, rest) :=
      match rest with
      | '^' :: rest => (true, rest)
      | rest => (false, rest)
    let name := rest.takeWhile (· ≠ ':')
    if (rest.drop name.length).take 2 = [':', ']'] then some (negated, String.ofList name) else none
  | _ => none

def asciiClass? : Reader (Option ClassItem) := do
  let c ← get
  match asciiName? c with
  | none => return none
  | some (negated, name) =>
    match AsciiClass.ofName? name with
    | none => return none
    | some k =>
      let length := name.length + (if negated then 5 else 4)
      set (length.repeat Cursor.step c)
      return some (.ascii ⟨c.place, ← place⟩ k negated)

/-- Hyphens at the start of a class stand for themselves. -/
def hyphens (start : Place) : Nat → Items → Reader Items
  | 0, u => return u
  | turns + 1, u => do
    if (← char?) = some '-' then
      let span ← charSpan '-'
      next
      if ← atEnd then fail .classUnclosed (.point start)
      hyphens start turns (u.push (.literal ⟨span, '-', false⟩))
    else return u

def openClass (outer : Items) : Reader (ClassFrame × Items) := do
  let start ← place
  next
  if ← atEnd then failFrom .classUnclosed start
  let negated := (← char?) = some '^'
  if negated then
    next
    if ← atEnd then failFrom .classUnclosed start
  let u ← hyphens start (← bound) (.empty (.point (← place)))
  if u.items.isEmpty && (← char?) = some ']' then
    let span ← charSpan ']'
    next
    if ← atEnd then failFrom .classUnclosed start
    return (.bracket outer ⟨start, ← place⟩ negated, u.push (.literal ⟨span, ']', false⟩))
  else return (.bracket outer ⟨start, ← place⟩ negated, u)

def failUnclosed {α : Type} (outer : List ClassFrame) : Reader α := do
  let opening? := outer.findSome? fun f =>
    match f with
    | .bracket _ opening _ => some opening
    | .operand .. => none
  fail .classUnclosed (opening?.getD (.point (← place)))

/-- Puts a pending operation and its right side together. -/
def closeOperation (right : ClassSet) : List ClassFrame → ClassSet × List ClassFrame
  | .operand op left :: outer =>
    (.operation ⟨left.span.start, right.span.stop⟩ op left right, outer)
  | outer => (right, outer)

def itemOf (t : Tree) : Reader ClassItem :=
  match t with
  | .literal l => return .literal l
  | .letter s l negated => return .letter s l negated
  | .property s p => return .property s p
  | t => fail .classEscapeInvalid t.span

def literalOf (t : Tree) : Reader Literal :=
  match t with
  | .literal l => return l
  | t => fail .classRangeLiteral t.span

def classPrimitive (c : Char) : Reader Tree := do
  if c = '\\' then escape
  else
    let span ← charSpan c
    step
    return .literal ⟨span, c, false⟩

def classRange (outer : List ClassFrame) (c : Char) : Reader ClassItem := do
  let a ← classPrimitive c
  skip
  if ← atEnd then failUnclosed outer
  let second := (← get).second?
  if (← char?) ≠ some '-' || second = some ']' || second = some '-' then itemOf a
  else
    next
    match ← char? with
    | none => failUnclosed outer
    | some c =>
      let b ← classPrimitive c
      let span : Span := ⟨a.span.start, b.span.stop⟩
      let first ← literalOf a
      let last ← literalOf b
      if last.char < first.char then fail .classRangeInvalid span
      else return .range span first last

def operation? : Reader (Option SetOperation) := do
  if ← accept "&&" then return some .intersection
  else if ← accept "--" then return some .difference
  else if ← accept "~~" then return some .symmetricDifference
  else return none

def classFrom : Nat → Items → List ClassFrame → Reader Tree
  | 0, _, outer => failUnclosed outer
  | turns + 1, u, outer => do
    skip
    match ← char? with
    | none => failUnclosed outer
    | some c =>
      if c = '[' then
        let named ← if outer.isEmpty then pure none else asciiClass?
        match named with
        | some i => classFrom turns (u.push i) outer
        | none =>
          let (frame, inner) ← openClass u
          classFrom turns inner (frame :: outer)
      else if c = ']' then
        match closeOperation (.item u.toItem) outer with
        | (set, .bracket before opening negated :: outer) =>
          step
          let span : Span := ⟨opening.start, ← place⟩
          if outer.isEmpty then return .bracketed span negated set
          else classFrom turns (before.push (.bracketed span negated set)) outer
        | (_, outer) => failUnclosed outer
      else
        match ← operation? with
        | some op =>
          let (left, outer) := closeOperation (.item u.toItem) outer
          classFrom turns (.empty (.point (← place))) (.operand op left :: outer)
        | none =>
          let i ← classRange outer c
          classFrom turns (u.push i) outer

def bracketed : Reader Tree := do classFrom (← bound) (.empty (.point (← place))) []

/-! ## Repetitions -/

structure Sequence where
  start : Place
  trees : List Tree

namespace Sequence

def push (s : Sequence) (t : Tree) : Sequence := { s with trees := t :: s.trees }

def toTree (s : Sequence) (stop : Place) : Tree :=
  match s.trees with
  | [] => .empty ⟨s.start, stop⟩
  | [t] => t
  | ts => .concatenation ⟨s.start, stop⟩ ts.reverse

def last? (s : Sequence) : Option (Tree × Sequence) :=
  match s.trees with
  | [] | .empty _ :: _ | .switches .. :: _ => none
  | t :: ts => some (t, { s with trees := ts })

end Sequence

/-- A question mark behind an operator changes only which match is found first. -/
def lazyMark : Reader Unit := do
  if (← char?) = some '?' then step

def simpleRepetition (s : Sequence) (least : Nat) (most : Option Nat) : Reader Sequence := do
  match s.last? with
  | none => failHere .repetitionMissing
  | some (t, s) =>
    step
    lazyMark
    return s.push (.repetition ⟨t.span.start, ← place⟩ t least most)

def counts (start : Place) : Reader (Nat × Option Nat) := do
  let least ← decimal
  match ← char? with
  | none => failFrom .repetitionCountUnclosed start
  | some c =>
    if c = ',' then
      next
      match ← char? with
      | none => failFrom .repetitionCountUnclosed start
      | some c =>
        let least ← least
        if c = '\x7d' then return (least, none)
        else
          let most ← (← decimal)
          return (least, some most)
    else
      let least ← least
      return (least, some least)

def countedRepetition (s : Sequence) : Reader Sequence := do
  let start ← place
  match s.last? with
  | none => failHere .repetitionMissing
  | some (t, s) =>
    next
    if ← atEnd then failFrom .repetitionCountUnclosed start
    let (least, most) ← counts start
    if (← char?) ≠ some '\x7d' then failFrom .repetitionCountUnclosed start
    next
    lazyMark
    if most.any (· < least) then failFrom .repetitionCountInvalid start
    return s.push (.repetition ⟨t.span.start, ← place⟩ t least most)

/-! ## Groups -/

inductive Frame where
  | group (outer : Sequence) (opening : Span) (s : Option Switches) (spaced : Bool)
  /-- An alternation with its branches so far, the last first. -/
  | branches (start : Place) (done : List Tree)

inductive Opening where
  | switches (span : Span) (s : Switches)
  | group (s : Option Switches)

def nameChar (first : Bool) (c : Char) : Bool :=
  if first then c = '_' || Text.isLetter c
  else c = '_' || c = '.' || c = '[' || c = ']' || Text.isLetterOrDigit c

def groupNameFrom : Nat → List Char → Reader (List Char)
  | 0, done => return done.reverse
  | turns + 1, done => do
    match ← char? with
    | none => failHere .groupNameUnexpectedEnd
    | some c =>
      if c = '>' then return done.reverse
      else if !nameChar done.isEmpty c then fail .groupNameInvalid (← charSpan c)
      else
        step
        groupNameFrom turns (c :: done)

def groupName : Reader Unit := do
  let start ← place
  let name ← groupNameFrom (← bound) []
  let span : Span := ⟨start, ← place⟩
  step
  if name.isEmpty then fail .groupNameEmpty (.point start)
  else
    let name := String.ofList name
    match (← get).names.lookup name with
    | some earlier => throw ⟨.groupNameDuplicate, span, some earlier⟩
    | none => modify fun c => { c with names := (name, span) :: c.names }

def modeOf? (c : Char) : Option Mode :=
  match c with
  | 'i' => some .ignoreCase
  | 'm' => some .multiLine
  | 's' => some .dotAll
  | 'U' => some .swapGreed
  | 'u' => some .unicode
  | 'R' => some .carriageReturns
  | 'x' => some .spaced
  | _ => none

/-- Modes up to the end of their list. The place of a hyphen is kept, and those of the modes. -/
def switchesFrom : Nat → Option Span → Bool → List (Mode × Bool × Span) → Reader Switches
  | 0, _, _, _ => failHere .flagUnexpectedEnd
  | turns + 1, hyphen, dangling, done => do
    match ← char? with
    | none => failHere .flagUnexpectedEnd
    | some c =>
      let span ← charSpan c
      if c = ':' || c = ')' then
        match hyphen with
        | some s => if dangling then fail .flagDanglingNegation s
        | none => pure ()
        return done.reverse.map fun (m, on, _) => (m, on)
      else if c = '-' then
        match hyphen with
        | some earlier => throw ⟨.flagRepeatedNegation, span, some earlier⟩
        | none =>
          step
          switchesFrom turns (some span) true done
      else
        match modeOf? c with
        | none => fail .flagUnrecognized span
        | some m =>
          match done.lookup m with
          | some (_, earlier) => throw ⟨.flagDuplicate, span, some earlier⟩
          | none =>
            step
            switchesFrom turns hyphen false ((m, hyphen.isNone, span) :: done)

def lookAroundMarks : List String := ["?=", "?!", "?<=", "?<!"]

def opening : Reader Opening := do
  let span ← charSpan '('
  step
  skip
  for mark in lookAroundMarks do
    if ← accept mark then failFrom .lookAround span.start
  let inner ← place
  if ← accept "?P<" then
    groupName
    return .group none
  else if ← accept "?<" then
    groupName
    return .group none
  else if ← accept "?" then
    if ← atEnd then fail .groupUnclosed span
    let s ← switchesFrom (← bound) none false []
    let closed := (← char?) = some ')'
    step
    if !closed then return .group (some s)
    else if s.isEmpty then fail .repetitionMissing (.point inner)
    else return .switches ⟨span.start, ← place⟩ s
  else return .group none

def setSpaced (spaced : Bool) : Reader Unit := modify fun c => { c with spaced }

def openGroup (s : Sequence) (outer : List Frame) : Reader (Sequence × List Frame) := do
  let span ← charSpan '('
  let before := (← get).spaced
  match ← opening with
  | .switches span switches =>
    setSpaced ((switches.state? .spaced).getD before)
    return (s.push (.switches span switches), outer)
  | .group switches =>
    setSpaced ((switches.bind (·.state? .spaced)).getD before)
    return (⟨← place, []⟩, .group s span switches before :: outer)

def closeBranches (s : Sequence) (stop : Place) (outer : List Frame) : Tree × List Frame :=
  match outer with
  | .branches start done :: outer =>
    (.alternation ⟨start, stop⟩ (s.toTree stop :: done).reverse, outer)
  | outer => (s.toTree stop, outer)

def closeGroup (s : Sequence) (outer : List Frame) : Reader (Sequence × List Frame) := do
  let stop ← place
  match closeBranches s stop outer with
  | (t, .group before span switches spaced :: outer) =>
    setSpaced spaced
    step
    return (before.push (.group ⟨span.start, ← place⟩ switches t), outer)
  | _ => fail .groupUnopened (← charSpan ')')

def branch (s : Sequence) (outer : List Frame) : Reader (Sequence × List Frame) := do
  let stop ← place
  step
  let next : Sequence := ⟨← place, []⟩
  match outer with
  | .branches start done :: outer => return (next, .branches start (s.toTree stop :: done) :: outer)
  | outer => return (next, .branches s.start [s.toTree stop] :: outer)

def finish (s : Sequence) (outer : List Frame) : Reader Tree := do
  match closeBranches s (← place) outer with
  | (t, []) => return t
  | (_, .group _ span _ _ :: _) => fail .groupUnclosed span
  | (_, .branches .. :: _) => failHere .groupUnclosed

def treeFrom : Nat → Sequence → List Frame → Reader Tree
  | 0, s, outer => finish s outer
  | turns + 1, s, outer => do
    skip
    match ← char? with
    | none => finish s outer
    | some c =>
      match c with
      | '(' =>
        let (s, outer) ← openGroup s outer
        treeFrom turns s outer
      | ')' =>
        let (s, outer) ← closeGroup s outer
        treeFrom turns s outer
      | '|' =>
        let (s, outer) ← branch s outer
        treeFrom turns s outer
      | '[' =>
        let t ← bracketed
        treeFrom turns (s.push t) outer
      | '?' =>
        let s ← simpleRepetition s 0 (some 1)
        treeFrom turns s outer
      | '*' =>
        let s ← simpleRepetition s 0 none
        treeFrom turns s outer
      | '+' =>
        let s ← simpleRepetition s 1 none
        treeFrom turns s outer
      | '\x7b' =>
        let s ← countedRepetition s
        treeFrom turns s outer
      | c =>
        let t ← primitive c
        treeFrom turns (s.push t) outer

end Reader

/-! ## The depth of trees -/

def deeper (span : Span) (depth : Nat) : Except Finding Nat :=
  if nestLimit ≤ depth then .error ⟨.nestLimitExceeded, span, none⟩ else .ok (depth + 1)

mutual

def ClassItem.checkDepth (depth : Nat) : ClassItem → Except Finding Unit
  | .bracketed span _ set => do set.checkDepth (← deeper span depth)
  | .union span items => do checkItems (← deeper span depth) items
  | _ => .ok ()

def ClassSet.checkDepth (depth : Nat) : ClassSet → Except Finding Unit
  | .item i => i.checkDepth depth
  | .operation span _ left right => do
    let depth ← deeper span depth
    left.checkDepth depth
    right.checkDepth depth

def checkItems (depth : Nat) : List ClassItem → Except Finding Unit
  | [] => .ok ()
  | i :: items => do
    i.checkDepth depth
    checkItems depth items

end

mutual

def Tree.checkDepth (depth : Nat) : Tree → Except Finding Unit
  | .bracketed span _ set => do set.checkDepth (← deeper span depth)
  | .repetition span t _ _ => do t.checkDepth (← deeper span depth)
  | .group span _ t => do t.checkDepth (← deeper span depth)
  | .alternation span ts => do checkTrees (← deeper span depth) ts
  | .concatenation span ts => do checkTrees (← deeper span depth) ts
  | _ => .ok ()

def checkTrees (depth : Nat) : List Tree → Except Finding Unit
  | [] => .ok ()
  | t :: ts => do
    t.checkDepth depth
    checkTrees depth ts

end

def Tree.ofText (text : String) : Except Finding Tree := do
  let (t, _) ← (do Reader.treeFrom (← Reader.bound) ⟨.first, []⟩ []).run (Cursor.ofText text)
  t.checkDepth 0
  return t

end ClassListing.Pattern
