import ClassListing.Filter.Member
import ClassListing.Renderer.Lines

/-!
What the command is asked to do, and the options that say so.
-/

namespace ClassListing

inductive Selection where
  | classes (names : List String)
  | nameFile (path : String)
  | boot
  | classPathFile (path : String) (platformOnly : Bool)
  deriving DecidableEq, Repr

inductive Destination where
  | terminal
  | file (directory : String) (summary : Bool)
  deriving DecidableEq, Repr

structure Invocation where
  selection : Selection
  format : OutputFormat
  filter : MemberFilter
  catalogs : List String
  destination : Destination
  verbose : Bool
  deriving DecidableEq, Repr

inductive Request where
  | listing (i : Invocation)
  | version
  | help
  deriving DecidableEq, Repr

/-! ## Options -/

inductive OptionKey where
  | classes
  | nameFile
  | boot
  | classPathFile
  | platformOnly
  | format
  | filter
  | catalog
  | terminal
  | directory
  | summary
  | verbose
  | help
  | version
  deriving DecidableEq, Repr

inductive Arity where
  | none
  | one
  | several
  deriving DecidableEq, Repr

namespace OptionKey

def list : List OptionKey :=
  [classes, nameFile, boot, classPathFile, platformOnly, format, filter, catalog, terminal, directory,
    summary, verbose, help, version]

def long? : OptionKey → Option String
  | classes => none
  | nameFile => none
  | boot => "boot"
  | classPathFile => "classpath-file"
  | platformOnly => "jdk-only"
  | format => "format"
  | filter => "filter"
  | catalog => "catalog"
  | terminal => "stdout"
  | directory => "output-dir"
  | summary => "json"
  | verbose => "verbose"
  | help => "help"
  | version => "version"

def short? : OptionKey → Option Char
  | classes => 'c'
  | nameFile => 'f'
  | verbose => 'v'
  | help => 'h'
  | version => 'V'
  | _ => none

def ofLong? (name : String) : Option OptionKey := list.find? fun k => k.long? = some name

def ofShort? (letter : Char) : Option OptionKey := list.find? fun k => k.short? = some letter

def text (k : OptionKey) : String :=
  match k.long?, k.short? with
  | some name, _ => "--" ++ name
  | none, some letter => "-" ++ String.singleton letter
  | none, none => ""

def arity : OptionKey → Arity
  | classes => .several
  | nameFile => .one
  | classPathFile => .one
  | format => .one
  | filter => .one
  | catalog => .one
  | directory => .one
  | _ => .none

def repeats (k : OptionKey) : Bool := k = classes || k = catalog

/-- Paths must not be empty, formats and filters must be known, and a class may have any name. -/
def accepts (k : OptionKey) (value : String) : Bool :=
  match k with
  | nameFile => value ≠ ""
  | classPathFile => value ≠ ""
  | catalog => value ≠ ""
  | directory => value ≠ ""
  | format => (OutputFormat.ofText? value).isSome
  | filter => (MemberFilter.ofText? value).isSome
  | _ => true

end OptionKey

end ClassListing
