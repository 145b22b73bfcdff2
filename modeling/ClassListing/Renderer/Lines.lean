import ClassListing.Archive
import ClassListing.Filter.Member
import ClassListing.Renderer

/-!
The four renderings: signature lines, simple CSV, detailed CSV, and the names of class files.
-/

namespace ClassListing

namespace Renderer

def lineEnd : String := "\n"

def quote (s : String) : String := "\"" ++ s ++ "\""

def activeFilter (caller : Option (Filter Member)) : Filter Member :=
  caller.getD MemberFilter.all.filter

def plainSuffix (caller : Option (Filter Member)) : String := (caller.map Filter.name).getD ""

def taggedSuffix (caller : Option (Filter Member)) (tag : String) : String :=
  match caller with
  | some f => f.name ++ "_" ++ tag
  | none => tag

/-! ## Signature lines -/

def signatureLine (m : Member) : String :=
  "<" ++ m.declaring.name ++ ": " ++ m.signature ++ "> " ++ lineEnd

/-- A line for each executable. A combined filter takes the next free number. -/
def signatures (caller : Option (Filter Member)) (free : Nat) : Renderer × Nat :=
  let (filter, free) :=
    match caller with
    | some f => Filter.combine .and f MemberFilter.executable.filter free
    | none => (MemberFilter.executable.filter, free)
  ({ header := ""
     filter
     renderMember := fun m =>
       if m.isField then .error (.unsupportedMember "PscoutFormatter" m.kind)
       else .ok (signatureLine m)
     classHead := fun _ => ""
     classFoot := fun _ => ""
     suffix := plainSuffix caller
     extension := ".pscout" }, free)

/-! ## Simple CSV -/

def csvRow (m : Member) : String :=
  quote m.declaring.name ++ "," ++ quote m.signature ++ lineEnd

def csv (caller : Option (Filter Member)) : Renderer where
  header := "class,method/field sig" ++ lineEnd
  filter := activeFilter caller
  renderMember m := .ok (csvRow m)
  classHead _ := ""
  classFoot _ := ""
  suffix := plainSuffix caller
  extension := ".csv"

/-! ## Detailed CSV -/

/-- The modifiers of a class besides its access. On classes the bit of `synchronized` has another
meaning. -/
def classOther (c : ClassInfo) : Modifiers :=
  c.modifiers.nonAccess.diff (.ofFlag .synchronized)

/-- The modifiers of a member besides its access. On executables the bits of `transient` and
`volatile` have other meanings. -/
def memberOther (m : Member) : Modifiers :=
  if m.isField then m.modifiers.nonAccess
  else m.modifiers.nonAccess.diff ((Modifiers.ofFlag .transient).union (.ofFlag .volatile))

def detailColumns (m : Member) (type : String) : List String :=
  [quote m.declaring.modifiers.access.render, quote (classOther m.declaring).render,
   quote m.declaring.name, quote m.modifiers.access.render, quote (memberOther m).render,
   quote type, quote m.name]

def bit (b : Bool) : String := if b then "1" else "0"

def detailRow (m : Member) : String :=
  ",".intercalate
    (if m.isField then "F" :: detailColumns m m.type
     else
      "M" :: detailColumns m m.returnType ++
        [bit m.varargs, bit m.synthetic, bit m.bridge, quote m.parameterList]) ++ lineEnd

def detailedCsv (caller : Option (Filter Member)) : Renderer where
  header := ",CLASS,CLASS,CLASS,M/F,M/F,M/F Type,M/F Name,varg,syn,bridge,params" ++ lineEnd
  filter := activeFilter caller
  renderMember m := .ok (detailRow m)
  classHead _ := ""
  classFoot _ := ""
  suffix := taggedSuffix caller "detail"
  extension := ".csv"

/-! ## Class files -/

def slashed (name : List Char) : List Char := name.map fun c => if c = '.' then '/' else c

def classFile (name : String) : String := String.ofList (slashed name.toList) ++ classSuffix

def classFiles (caller : Option (Filter Member)) : Renderer where
  header := ""
  filter := activeFilter caller
  renderMember _ := .ok ""
  classHead c := classFile c.name ++ "\n"
  classFoot _ := ""
  suffix := taggedSuffix caller "ClassNames"
  extension := ".txt"

end Renderer

/-! ## Choosing a rendering -/

inductive OutputFormat where
  | signatures
  | csv
  | detailedCsv
  | classFiles
  deriving DecidableEq, Repr

namespace OutputFormat

def list : List OutputFormat := [signatures, csv, detailedCsv, classFiles]

def text : OutputFormat → String
  | signatures => "pscout"
  | csv => "csv"
  | detailedCsv => "csv-detail"
  | classFiles => "class-only"

def ofText? (s : String) : Option OutputFormat := list.find? fun f => f.text.toLower = s.toLower

def renderer (f : OutputFormat) (caller : Option (Filter Member)) (free : Nat) : Renderer × Nat :=
  match f with
  | signatures => Renderer.signatures caller free
  | csv => (Renderer.csv caller, free)
  | detailedCsv => (Renderer.detailedCsv caller, free)
  | classFiles => (Renderer.classFiles caller, free)

def extension : OutputFormat → String
  | signatures => ".pscout"
  | csv => ".csv"
  | detailedCsv => ".csv"
  | classFiles => ".txt"

end OutputFormat

end ClassListing
