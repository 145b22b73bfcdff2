import ClassListing.Text.Split

/-!
The lines of a text: it is cut at line feeds, what follows the last line feed counts only if it is
not empty, and one carriage return directly before a line feed belongs to the line end.
-/

namespace ClassListing.Text

def dropReturn (line : List Char) : List Char :=
  if line.getLast? = some '\r' then line.dropLast else line

def linesOfPieces : List (List Char) → List (List Char)
  | [] => []
  | [rest] => if rest = [] then [] else [rest]
  | line :: next :: pieces => dropReturn line :: linesOfPieces (next :: pieces)

def lines (s : String) : List String :=
  (linesOfPieces (split '\n' s.toList)).map String.ofList

end ClassListing.Text
