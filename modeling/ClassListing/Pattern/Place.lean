import ClassListing.Text.Lines

/-!
Places in the text of a pattern, and the display of a text with marks under the places that a message is
about.
-/

namespace ClassListing.Pattern

structure Place where
  line : Nat
  column : Nat
  deriving DecidableEq, Repr

namespace Place

def first : Place := ⟨1, 1⟩

def after (p : Place) (c : Char) : Place :=
  if c = '\n' then ⟨p.line + 1, 1⟩ else ⟨p.line, p.column + 1⟩

def before (p q : Place) : Bool := p.line < q.line || (p.line = q.line && p.column < q.column)

end Place

structure Span where
  start : Place
  stop : Place
  deriving DecidableEq, Repr

namespace Span

def point (p : Place) : Span := ⟨p, p⟩

def ofChar (p : Place) (c : Char) : Span := ⟨p, p.after c⟩

def before (s t : Span) : Bool :=
  s.start.before t.start || (s.start = t.start && s.stop.before t.stop)

def isOnLine (n : Nat) (s : Span) : Bool := s.start.line = n && s.stop.line = n

end Span

namespace Display

/-- Marks below a line of which `column` columns are done. An empty span has one mark. -/
def marks (column : Nat) : List Span → List Char
  | [] => []
  | s :: spans =>
    let gap := s.start.column - 1 - column
    let width := max 1 (s.stop.column - s.start.column)
    List.replicate gap ' ' ++ List.replicate width '^' ++ marks (column + gap + width) spans

/-- How wide line numbers are. A single line has none. -/
def numberWidth (text : String) : Nat :=
  let count := (Text.lines text).length + (if text.toList.getLast? = some '\n' then 1 else 0)
  if count ≤ 1 then 0 else (toString count).length

def margin (width n : Nat) : String :=
  if width = 0 then "    " else "".pushn ' ' (width - (toString n).length) ++ toString n ++ ": "

def markMargin (width : Nat) : String := "".pushn ' ' (if width = 0 then 4 else width + 2)

def marked (text : String) (spans : List Span) : String :=
  let width := numberWidth text
  String.join ((Text.lines text).zipIdx.map fun (line, i) =>
    let here := spans.filter (·.isOnLine (i + 1))
    margin width (i + 1) ++ line ++ "\n" ++
      (if here = [] then "" else markMargin width ++ String.ofList (marks 0 here) ++ "\n"))

def longNote (s : Span) : String :=
  s!"on line {s.start.line} (column {s.start.column}) through line {s.stop.line} " ++
    s!"(column {s.stop.column - 1})\n"

def rule : String := "".pushn '~' 79 ++ "\n"

/-- A text with its spans, which are in order; between rules if it has several lines. -/
def framed (text : String) (spans : List Span) : String :=
  if text.toList.contains '\n' then
    rule ++ marked text spans ++ rule ++
      String.join ((spans.filter fun s => s.start.line ≠ s.stop.line).map longNote)
  else marked text spans

end Display

end ClassListing.Pattern
