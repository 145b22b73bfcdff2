import ClassListing.CommandLine.LogFilter
import ClassListing.Text.Plain

/-!
How log records look on the error output. Each is a line with its level in brackets; further lines are
indented. Colours are used only if the environment asks for them, and without colours a record has no
control characters at all.
-/

namespace ClassListing

def indented (blanks : Nat) (text : String) : String :=
  String.ofList (text.toList.flatMap fun c =>
    if c = '\n' then c :: List.replicate blanks ' ' else [c])

inductive LogStyle where
  | plain
  | coloured
  deriving DecidableEq, Repr

namespace LogStyle

def styleVariable : String := "RUST_LOG_STYLE"

def noColourVariable : String := "NO_COLOR"

def forceVariable : String := "CLICOLOR_FORCE"

def ofHost (h : Host) : LogStyle :=
  if h.var? styleVariable = some "always" then coloured
  else if h.var? styleVariable = some "never" then plain
  else if (h.var? noColourVariable).any (· ≠ "") then plain
  else if (h.var? forceVariable).any (· ≠ "0") then coloured
  else plain

def between (codes : List Nat) (text : String) : String :=
  String.join (codes.map fun n => s!"\x1b[{n}m") ++ text ++ "\x1b[0m"

def codes : Level → List Nat
  | .error => [1, 31]
  | .warn => [33]
  | .info => [32]
  | .debug => [34]
  | .trace => [36]

def bracketCodes : List Nat := [90]

def heading (s : LogStyle) (l : Level) : String :=
  let text := l.text.pushn ' ' (5 - l.text.length)
  match s with
  | plain => "[" ++ text ++ "]"
  | coloured => between bracketCodes "[" ++ between (codes l) text ++ between bracketCodes "]"

def render (s : LogStyle) (r : LogRecord) : String :=
  let line := s.heading r.level ++ " " ++ indented 4 r.text ++ "\n"
  match s with
  | plain => Text.plain line
  | coloured => line

end LogStyle

end ClassListing
