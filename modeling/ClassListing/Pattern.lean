import ClassListing.Pattern.Meaning
import ClassListing.Pattern.Reader
import ClassListing.Pattern.Search

/-!
Patterns for texts: read from a text, or refused with a report, and looked for in other texts.
-/

namespace ClassListing

structure Pattern where
  expr : Pattern.Expr

namespace Pattern

inductive Refusal where
  | finding (text : String) (f : Finding)
  | tooLarge
  /-- It asks for words of all scripts. -/
  | anyScript
  deriving DecidableEq, Repr

def sizeLimit : Nat := 10485760

def Refusal.message : Refusal → String
  | finding text f => f.report text
  | tooLarge => s!"Compiled regex exceeds size limit of {sizeLimit} bytes."
  | anyScript => "error building NFA"

def ofText (text : String) : Except Refusal Pattern :=
  match (do Tree.meaning {} (← Tree.ofText text)) with
  | .error f => .error (.finding text f)
  | .ok (e, _) =>
    if sizeLimit < e.size then .error .tooLarge
    else if e.asksAnyScript then .error .anyScript
    else .ok ⟨e⟩

def occursIn (p : Pattern) (text : String) : Bool := p.expr.occursIn text.toList

end Pattern

end ClassListing
