import ClassListing.Host
import ClassListing.Pattern
import ClassListing.Text.Split

/-!
Which log records are shown. A setting is a list of directives with commas between them, and a pattern
may follow it after a slash. A directive is a limit, the name of a component, or both with an equals
sign between them. Of the directives whose name the component's name begins with, the longest
counts, and of equal names the last.
-/

namespace ClassListing

namespace Level

def rank : Level → Nat
  | error => 1
  | warn => 2
  | info => 3
  | debug => 4
  | trace => 5

def text : Level → String
  | error => "ERROR"
  | warn => "WARN"
  | info => "INFO"
  | debug => "DEBUG"
  | trace => "TRACE"

def list : List Level := [error, warn, info, debug, trace]

end Level

namespace Component

def program : String := "jlscope"

def name : Component → String
  | archive => program ++ "::file"
  | nameFile => program ++ "::source::namefile"
  | classPath => program ++ "::source::classpath"
  | catalog => program ++ "::resolver::catalog"
  | session => program ++ "::resolver"
  | sink => program ++ "::print"
  | fileSink => program ++ "::print::file"
  | listing => program ++ "::analyzer"
  | command => program ++ "::list"

end Component

/-- The least urgent level that is shown; `none` if no record is shown. -/
abbrev Limit := Option Level

namespace Limit

def shows (l : Limit) (level : Level) : Bool :=
  match l with
  | some least => level.rank ≤ least.rank
  | none => false

def ofText? (s : String) : Option Limit :=
  if s.toLower = "off" then some none
  else (Level.list.find? fun l => l.text.toLower = s.toLower).map some

end Limit

structure Directive where
  name : String
  limit : Limit
  deriving DecidableEq, Repr

namespace Directive

def ofText (s : String) : Except String Directive :=
  match Text.splitString '=' s with
  | [a] =>
    match Limit.ofText? a with
    | some limit => .ok ⟨"", limit⟩
    | none => .ok ⟨a, some .trace⟩
  | [a, b] =>
    let b := String.ofList (Text.trim b.toList)
    if b = "" then .ok ⟨a, some .trace⟩
    else
      match Limit.ofText? b with
      | some limit => .ok ⟨a, limit⟩
      | none => .error b
  | _ => .error s

def applies (d : Directive) (c : Component) : Bool := d.name.toList.isPrefixOf c.name.toList

/-- The one of two directives that counts for a component, the second being the later. -/
def stronger (c : Component) (d e : Directive) : Directive :=
  if e.applies c && d.name.length ≤ e.name.length then e else d

end Directive

structure LogFilter where
  /-- The limit of the program, which holds where no directive says more. -/
  limit : Limit
  directives : List Directive
  /-- Records in whose text it does not occur are not shown. -/
  pattern : Option Pattern

namespace LogFilter

def default (verbose : Bool) : LogFilter := ⟨some (if verbose then .debug else .info), [], none⟩

def readDirectives (text : String) : List Directive × List String :=
  let parts := (Text.split ',' text.toList).map fun part => String.ofList (Text.trim part)
  (parts.filter (· ≠ "")).foldr (fun part (ds, bad) =>
    match Directive.ofText part with
    | .ok d => (d :: ds, bad)
    | .error s => (ds, s :: bad)) ([], [])

def warning (text : String) : String := s!"warning: {text}, ignoring it\n"

def configure (f : LogFilter) (setting : String) : LogFilter × List String :=
  match Text.splitString '/' setting with
  | text :: more =>
    if 1 < more.length then (f, [warning s!"invalid logging spec '{setting}' (too many '/'s)"])
    else
      let (directives, bad) := readDirectives text
      let warnings := bad.map fun s => warning s!"invalid logging spec '{s}'"
      match more.head?.map Pattern.ofText with
      | none => ({ f with directives }, warnings)
      | some (.ok p) => ({ f with directives, pattern := some p }, warnings)
      | some (.error r) =>
        ({ f with directives }, warnings ++ [warning s!"invalid regex filter - {r.message}"])
  | [] => (f, [])

def limitOf (f : LogFilter) (c : Component) : Limit :=
  (f.directives.foldl (Directive.stronger c) ⟨Component.program, f.limit⟩).limit

def shows (f : LogFilter) (r : LogRecord) : Bool :=
  (f.limitOf r.component).shows r.level && f.pattern.all (·.occursIn r.text)

end LogFilter

end ClassListing
