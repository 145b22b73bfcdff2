import ClassListing.Text.Split

/-!
Paths as they are written: text with slashes between the names.
-/

namespace ClassListing.Path

/-- The parts between the slashes. The first is empty if the path is absolute, the last if the path
ends in a slash. -/
def parts (path : String) : List String := Text.splitString '/' path

def isAbsolute (path : String) : Bool := path.toList.head? = some '/'

def join (dir path : String) : String :=
  if isAbsolute path then path
  else if dir = "" || dir.toList.getLast? = some '/' then dir ++ path
  else dir ++ "/" ++ path

/-- The part of a file name after its last dot, unless nothing stands before that dot. -/
def extension? (fileName : String) : Option String :=
  let reversed := fileName.toList.reverse
  match reversed.dropWhile (· ≠ '.') with
  | _ :: _ :: _ => some (String.ofList (reversed.takeWhile (· ≠ '.')).reverse)
  | _ => none

def splitList (paths : String) : List String := Text.splitString ':' paths

end ClassListing.Path
