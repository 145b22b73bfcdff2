/-!
Text without the control sequences of terminals. A sequence begins with the escape character and ends
as its kind says; single control characters are left out too. White space in the middle of a
sequence is text, and so is what follows it up to the next control character, but the sequence may
go on behind that.
-/

namespace ClassListing.Text

inductive Control where
  | none
  | escape
  /-- Behind an escape character and signs that a letter or digit ends. -/
  | intermediate
  | parameters
  /-- A control string before its first letter: at its start, behind digits, or behind other signs. -/
  | stringStart
  | stringDigits
  | stringSigns
  | string
  /-- A control string that a bell ends. -/
  | command
  deriving DecidableEq, Repr

namespace Control

def isBetween (low high : Char) (c : Char) : Bool := low ≤ c && c ≤ high

def after (s : Control) (c : Char) : Control :=
  if c = '\x18' || c = '\x1a' then none
  else if c = '\x1b' then escape
  else
    match s with
    | none => none
    | escape =>
      if isBetween ' ' '/' c then intermediate
      else if c = '[' then parameters
      else if c = ']' then command
      else if c = 'P' then stringStart
      else if c = 'X' || c = '^' || c = '_' then string
      else if isBetween '0' '~' c then none
      else escape
    | intermediate => if isBetween '0' '~' c then none else intermediate
    | parameters => if isBetween '@' '~' c then none else parameters
    | stringStart =>
      if isBetween ' ' '/' c then stringSigns
      else if isBetween '0' '?' c then stringDigits
      else if isBetween '@' '~' c then string
      else stringStart
    | stringDigits =>
      if isBetween ' ' '/' c then stringSigns
      else if isBetween '<' '~' c then string
      else stringDigits
    | stringSigns => if isBetween '0' '~' c then string else stringSigns
    | string => string
    | command => if c = '\x07' then none else command

def isSpace (c : Char) : Bool :=
  c = ' ' || c = '\t' || c = '\n' || c = '\r' || c = '\x0c'

def isControl (c : Char) : Bool := c < ' ' || c = '\x7f'

def isAscii (c : Char) : Bool := c.toNat < 128

def isShown (c : Char) : Bool := !isControl c || isSpace c

def shows (s : Control) (c : Char) : Bool :=
  match s with
  | none => isShown c
  | escape | intermediate | parameters => isSpace c && c ≠ ' '
  | _ => false

/-- The byte that ends a control string even inside a character. -/
def terminator : UInt8 := 0x9C

def afterWide (s : Control) (c : Char) : Control :=
  if s = string && (String.singleton c).toUTF8.data.toList.contains terminator then none else s

end Control

def plainFrom (s : Control) (showing : Bool) : List Char → List Char
  | [] => []
  | c :: cs =>
    if !Control.isAscii c then
      if showing || s = .none then c :: plainFrom .none true cs
      else plainFrom (s.afterWide c) false cs
    else if showing then
      if Control.isShown c then c :: plainFrom s true cs
      else
        let s := if c = '\x1b' || c = '\x18' || c = '\x1a' then Control.none.after c else s
        plainFrom s false cs
    else if s.shows c then c :: plainFrom s true cs
    else plainFrom (s.after c) false cs

def plain (text : String) : String := String.ofList (plainFrom .none false text.toList)

end ClassListing.Text
