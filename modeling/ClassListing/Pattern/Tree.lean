import ClassListing.Pattern.Place

/-!
Patterns as they are written, with the span of each part.
-/

namespace ClassListing.Pattern

inductive Mode where
  | ignoreCase
  | multiLine
  | dotAll
  | swapGreed
  | unicode
  | carriageReturns
  | spaced
  deriving DecidableEq, Repr

abbrev Switches := List (Mode × Bool)

def Switches.state? (s : Switches) (m : Mode) : Option Bool := s.lookup m

structure Literal where
  span : Span
  char : Char
  /-- Whether it is written as a byte with two digits. -/
  isByte : Bool
  deriving DecidableEq, Repr

inductive Letter where
  | digit
  | blank
  | word
  deriving DecidableEq, Repr

inductive AsciiClass where
  | alnum
  | alpha
  | ascii
  | blank
  | cntrl
  | digit
  | graph
  | lower
  | print
  | punct
  | space
  | upper
  | word
  | xdigit
  deriving DecidableEq, Repr

namespace AsciiClass

def name : AsciiClass → String
  | alnum => "alnum"
  | alpha => "alpha"
  | ascii => "ascii"
  | blank => "blank"
  | cntrl => "cntrl"
  | digit => "digit"
  | graph => "graph"
  | lower => "lower"
  | print => "print"
  | punct => "punct"
  | space => "space"
  | upper => "upper"
  | word => "word"
  | xdigit => "xdigit"

def list : List AsciiClass :=
  [alnum, alpha, ascii, blank, cntrl, digit, graph, lower, print, punct, space, upper, word, xdigit]

def ofName? (s : String) : Option AsciiClass := list.find? fun c => c.name = s

end AsciiClass

inductive Anchor where
  | lineStart
  | lineEnd
  | textStart
  | textEnd
  | wordBoundary
  | notWordBoundary
  | wordStart
  | wordEnd
  | wordStartHalf
  | wordEndHalf
  deriving DecidableEq, Repr

inductive Property where
  | named (name : String)
  | valued
  deriving DecidableEq, Repr

inductive SetOperation where
  | intersection
  | difference
  | symmetricDifference
  deriving DecidableEq, Repr

mutual

inductive ClassItem where
  | empty (span : Span)
  | literal (l : Literal)
  | range (span : Span) (first last : Literal)
  | ascii (span : Span) (c : AsciiClass) (negated : Bool)
  | property (span : Span) (p : Property)
  | letter (span : Span) (l : Letter) (negated : Bool)
  | bracketed (span : Span) (negated : Bool) (set : ClassSet)
  | union (span : Span) (items : List ClassItem)

inductive ClassSet where
  | item (i : ClassItem)
  | operation (span : Span) (op : SetOperation) (left right : ClassSet)

end

namespace ClassItem

def span : ClassItem → Span
  | empty s => s
  | literal l => l.span
  | range s _ _ => s
  | ascii s _ _ => s
  | property s _ => s
  | letter s _ _ => s
  | bracketed s _ _ => s
  | union s _ => s

end ClassItem

def ClassSet.span : ClassSet → Span
  | item i => i.span
  | operation s _ _ _ => s

inductive Tree where
  | empty (span : Span)
  | switches (span : Span) (s : Switches)
  | literal (l : Literal)
  | dot (span : Span)
  | anchor (span : Span) (a : Anchor)
  | property (span : Span) (p : Property)
  | letter (span : Span) (l : Letter) (negated : Bool)
  | bracketed (span : Span) (negated : Bool) (set : ClassSet)
  | repetition (span : Span) (t : Tree) (least : Nat) (most : Option Nat)
  /-- A group is captured unless it switches modes, or none of them. -/
  | group (span : Span) (s : Option Switches) (t : Tree)
  | alternation (span : Span) (ts : List Tree)
  | concatenation (span : Span) (ts : List Tree)

def Tree.span : Tree → Span
  | empty s => s
  | switches s _ => s
  | literal l => l.span
  | dot s => s
  | anchor s _ => s
  | property s _ => s
  | letter s _ _ => s
  | bracketed s _ _ => s
  | repetition s _ _ _ => s
  | group s _ _ => s
  | alternation s _ => s
  | concatenation s _ => s

end ClassListing.Pattern
