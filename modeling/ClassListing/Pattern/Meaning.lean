import ClassListing.Pattern.Expr
import ClassListing.Pattern.Fault
import ClassListing.Pattern.Tree

/-!
What the tree of a pattern means under the modes that are on. There are no tables of Unicode
properties and cases, so what needs them is a fault, and texts are never matched byte by byte.
-/

namespace ClassListing.Pattern

structure Modes where
  ignoreCase : Bool := false
  multiLine : Bool := false
  dotAll : Bool := false
  unicode : Bool := true
  carriageReturns : Bool := false
  deriving DecidableEq, Repr

namespace Modes

def set (m : Modes) (mode : Mode) (on : Bool) : Modes :=
  match mode with
  | .ignoreCase => { m with ignoreCase := on }
  | .multiLine => { m with multiLine := on }
  | .dotAll => { m with dotAll := on }
  | .unicode => { m with unicode := on }
  | .carriageReturns => { m with carriageReturns := on }
  | .swapGreed | .spaced => m

def apply (m : Modes) (s : Switches) : Modes := s.foldl (fun m (mode, on) => m.set mode on) m

end Modes

def fault {α : Type} (f : Fault) (s : Span) : Except Finding α := .error ⟨f, s, none⟩

/-! ## Classes -/

/-- The characters of a class, and whether every case of them is known to be among them. -/
structure Chars where
  set : CharSet
  folded : Bool
  deriving DecidableEq, Repr

namespace Chars

def none : Chars := ⟨[], true⟩

def addRange (x : Chars) (low high : Nat) : Chars := ⟨x.set.insert low high, false⟩

def union (x y : Chars) : Chars :=
  if y.set = [] || x.set = y.set then x else ⟨x.set.union y.set, x.folded && y.folded⟩

def fold (m : Modes) (span : Span) (x : Chars) : Except Finding Chars :=
  if !m.ignoreCase then .ok x
  else if m.unicode then if x.folded then .ok x else fault .caseUnavailable span
  else .ok ⟨x.set.withBothCases, true⟩

def negate (x : Chars) : Chars :=
  if x.set = [] then ⟨.full, true⟩ else ⟨x.set.complement, x.folded⟩

def close (m : Modes) (span : Span) (negated : Bool) (x : Chars) : Except Finding Chars := do
  let x ← x.fold m span
  let x := if negated then x.negate else x
  if !m.unicode && !x.set.isAscii then fault .invalidUtf8 span else return x

def operate (op : SetOperation) (x y : Chars) : Chars :=
  match op with
  | .intersection => ⟨x.set.inter y.set, true⟩
  | .difference => ⟨x.set.diff y.set, true⟩
  | .symmetricDifference => ⟨x.set.symmDiff y.set, true⟩

end Chars

def AsciiClass.set : AsciiClass → CharSet
  | alnum => [(0x30, 0x39), (0x41, 0x5A), (0x61, 0x7A)]
  | alpha => [(0x41, 0x5A), (0x61, 0x7A)]
  | ascii => [(0x00, 0x7F)]
  | blank => [(0x09, 0x09), (0x20, 0x20)]
  | cntrl => [(0x00, 0x1F), (0x7F, 0x7F)]
  | digit => [(0x30, 0x39)]
  | graph => [(0x21, 0x7E)]
  | lower => [(0x61, 0x7A)]
  | print => [(0x20, 0x7E)]
  | punct => [(0x21, 0x2F), (0x3A, 0x40), (0x5B, 0x60), (0x7B, 0x7E)]
  | space => [(0x09, 0x0D), (0x20, 0x20)]
  | upper => [(0x41, 0x5A)]
  | word => [(0x30, 0x39), (0x41, 0x5A), (0x5F, 0x5F), (0x61, 0x7A)]
  | xdigit => [(0x30, 0x39), (0x41, 0x46), (0x61, 0x66)]

def Letter.ascii : Letter → AsciiClass
  | digit => .digit
  | blank => .space
  | word => .word

def Literal.check (m : Modes) (l : Literal) : Except Finding Char :=
  if !m.unicode && l.isByte && 0x7F < l.char.toNat then fault .invalidUtf8 l.span else .ok l.char

/-- A literal of a class. Without Unicode it must be ASCII. -/
def Literal.code (m : Modes) (l : Literal) : Except Finding Nat := do
  let c ← l.check m
  if !m.unicode && 0x7F < c.toNat then fault .unicodeNotAllowed l.span else return c.toNat

def propertyName (name : String) : String :=
  let cs := name.toList
  let cs := if (cs.take 2).map Char.toLower = ['i', 's'] then cs.drop 2 else cs
  String.ofList ((cs.filter fun c =>
    c.toNat < 0x80 && c ≠ ' ' && c ≠ '_' && c ≠ '-').map Char.toLower)

def valueNames : List String := ["cf", "sc", "lc"]

/-- There are no properties. -/
def propertyFault (m : Modes) (p : Property) : Fault :=
  if !m.unicode then .unicodeNotAllowed
  else
    match p with
    | .named name =>
      if valueNames.contains (propertyName name) then .propertyValueNotFound else .propertyNotFound
    | .valued => .propertyNotFound

def letterSet (m : Modes) (span : Span) (l : Letter) (negated : Bool) : Except Finding CharSet :=
  if m.unicode then fault .letterClassNotFound span
  else if negated then fault .invalidUtf8 span
  else .ok l.ascii.set

mutual

def ClassItem.addTo (m : Modes) (x : Chars) : ClassItem → Except Finding Chars
  | .empty _ => .ok x
  | .literal l => do
    let c ← l.code m
    return x.addRange c c
  | .range _ first last => do
    let low ← first.code m
    let high ← last.code m
    return x.addRange low high
  | .ascii span c negated => do
    let y ← Chars.close m span negated ⟨c.set, false⟩
    return x.union y
  | .property span p => fault (propertyFault m p) span
  | .letter span l negated => do
    let s ← letterSet m span l negated
    return x.union ⟨s, false⟩
  | .bracketed span negated set => do
    let y ← set.addTo m .none
    let y ← y.close m span negated
    return x.union y
  | .union _ items => addItems m x items

def ClassSet.addTo (m : Modes) (x : Chars) : ClassSet → Except Finding Chars
  | .item i => i.addTo m x
  | .operation _ op left right => do
    let y ← left.addTo m .none
    let z ← right.addTo m .none
    let z ← z.fold m right.span
    let y ← y.fold m left.span
    return x.union (.operate op y z)

def addItems (m : Modes) (x : Chars) : List ClassItem → Except Finding Chars
  | [] => .ok x
  | i :: items => do addItems m (← i.addTo m x) items

end

/-! ## Trees -/

def literalMeaning (m : Modes) (l : Literal) : Except Finding Expr := do
  let c ← l.check m
  if !m.ignoreCase then return .chars (.single c)
  else if m.unicode then fault .caseUnavailable l.span
  else return .chars (CharSet.withBothCases (.single c))

def dotMeaning (m : Modes) (span : Span) : Except Finding Expr :=
  if !m.unicode then fault .invalidUtf8 span
  else if m.dotAll then .ok (.chars .full)
  else if m.carriageReturns then .ok (.chars (CharSet.complement [(0x0A, 0x0A), (0x0D, 0x0D)]))
  else .ok (.chars (CharSet.complement [(0x0A, 0x0A)]))

def anchorMeaning (m : Modes) (a : Anchor) : Look :=
  let word (l : Look) : Look := if m.unicode then .anyScript else l
  match a with
  | .lineStart =>
    if !m.multiLine then .textStart else if m.carriageReturns then .returnLineStart else .lineStart
  | .lineEnd =>
    if !m.multiLine then .textEnd else if m.carriageReturns then .returnLineEnd else .lineEnd
  | .textStart => .textStart
  | .textEnd => .textEnd
  | .wordBoundary => word .wordBoundary
  | .notWordBoundary => word .notWordBoundary
  | .wordStart => word .wordStart
  | .wordEnd => word .wordEnd
  | .wordStartHalf => word .wordStartHalf
  | .wordEndHalf => word .wordEndHalf

mutual

def Tree.meaning (m : Modes) : Tree → Except Finding (Expr × Modes)
  | .empty _ => .ok (.empty, m)
  | .switches _ s => .ok (.empty, m.apply s)
  | .literal l => do return (← literalMeaning m l, m)
  | .dot span => do return (← dotMeaning m span, m)
  | .anchor _ a => .ok (.look (anchorMeaning m a), m)
  | .property span p => fault (propertyFault m p) span
  | .letter span l negated => do return (.chars (← letterSet m span l negated), m)
  | .bracketed span negated set => do
    let x ← set.addTo m .none
    let x ← x.close m span negated
    return (.chars x.set, m)
  | .repetition _ t least most => do
    let (e, m) ← t.meaning m
    return (e.repeated least most, m)
  | .group _ s t => do
    let (e, _) ← t.meaning (m.apply (s.getD []))
    return (if s.isNone then .captured e else e, m)
  | .alternation _ ts => do
    let (es, m) ← meanings m ts
    match es.reverse with
    | [] => return (.empty, m)
    | e :: es => return (es.foldl (fun b a => .alt a b) e, m)
  | .concatenation _ ts => do
    let (es, m) ← meanings m ts
    match es.reverse with
    | [] => return (.empty, m)
    | e :: es => return (es.foldl (fun b a => .seq a b) e, m)

def meanings (m : Modes) : List Tree → Except Finding (List Expr × Modes)
  | [] => .ok ([], m)
  | t :: ts => do
    let (e, m) ← t.meaning m
    let (es, m) ← meanings m ts
    return (e :: es, m)

end

end ClassListing.Pattern
