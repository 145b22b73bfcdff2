import ClassListing.Text.Hex
import ClassListing.Text.Shapeless

/-!
Text between quotes for a message: quotes, backslashes and characters that cannot be shown are
escaped, so a reader sees every character of the text.
-/

namespace ClassListing.Text

def escapeShown (c : Char) : List Char :=
  if c = '\x00' then ['\\', '0']
  else if c = '\t' then ['\\', 't']
  else if c = '\r' then ['\\', 'r']
  else if c = '\n' then ['\\', 'n']
  else if c = '\\' then ['\\', '\\']
  else if c = '"' then ['\\', '"']
  else if isShapeless c then ['\\', 'u', '\x7b'] ++ hexDigits c.toNat ++ ['\x7d']
  else [c]

def quoted (s : String) : String :=
  String.ofList ('"' :: s.toList.flatMap escapeShown ++ ['"'])

end ClassListing.Text
