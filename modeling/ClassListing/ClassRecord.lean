import ClassListing.Member

/-!
Classes as they are recorded in catalogs, and the check that turns a record into a class: every name is
there, and every member stands in the group of its kind.
-/

namespace ClassListing

structure MemberRecord where
  /-- Derived from the group and the name when absent. -/
  kind : Option MemberKind
  modifiers : Modifiers
  type : String
  name : String
  parameters : List String
  varargs : Bool
  synthetic : Bool
  bridge : Bool
  deriving DecidableEq, Repr

structure ClassRecord where
  name : String
  modifiers : Modifiers
  fields : List MemberRecord
  methods : List MemberRecord
  deriving DecidableEq, Repr

inductive Group where
  | fields
  | methods
  deriving DecidableEq, Repr

inductive Malformed where
  | unnamedClass
  | unnamedMember (className : String)
  | wrongGroup (kind : MemberKind) (member className : String)
  | described (text : String)
  deriving DecidableEq, Repr

def Malformed.message : Malformed → String
  | unnamedClass => "Class without a name"
  | unnamedMember c => "Member without a name in " ++ c
  | wrongGroup k m c => k.text ++ " '" ++ m ++ "' listed with the wrong member group in " ++ c
  | described text => text

def constructorName : String := "<init>"

def staticInitializerName : String := "<clinit>"

namespace Group

def admits : Group → MemberKind → Bool
  | fields, k => !k.isExecutable
  | methods, k => k.isExecutable

def defaultKind (g : Group) (name : String) : MemberKind :=
  match g with
  | fields => .field
  | methods =>
    if name = constructorName then .constructor
    else if name = staticInitializerName then .staticInitializer
    else .method

theorem admits_defaultKind (g : Group) (name : String) : g.admits (g.defaultKind name) := by
  cases g
  · rfl
  · simp only [defaultKind]
    split
    · rfl
    · split <;> rfl

end Group

namespace MemberRecord

def toMember (r : MemberRecord) (declaring : ClassInfo) (g : Group) : Except Malformed Member :=
  if r.name = "" then .error (.unnamedMember declaring.name)
  else
    let kind := r.kind.getD (g.defaultKind r.name)
    if g.admits kind then
      .ok {
        declaring
        kind
        modifiers := r.modifiers
        type := r.type
        name := r.name
        parameters := r.parameters
        varargs := r.varargs
        synthetic := r.synthetic
        bridge := r.bridge }
    else .error (.wrongGroup kind r.name declaring.name)

/-- The members of a group; the first bad record decides the error. -/
def toMembers (declaring : ClassInfo) (g : Group) : List MemberRecord → Except Malformed (List Member)
  | [] => .ok []
  | r :: rs =>
    match r.toMember declaring g with
    | .error e => .error e
    | .ok m =>
      match toMembers declaring g rs with
      | .error e => .error e
      | .ok ms => .ok (m :: ms)

end MemberRecord

namespace ClassRecord

def info (r : ClassRecord) : ClassInfo := ⟨r.name, r.modifiers⟩

def toClass (r : ClassRecord) : Except Malformed JavaClass :=
  if r.name = "" then .error .unnamedClass
  else
    match MemberRecord.toMembers r.info .fields r.fields with
    | .error e => .error e
    | .ok fields =>
      match MemberRecord.toMembers r.info .methods r.methods with
      | .error e => .error e
      | .ok methods => .ok ⟨r.info, fields, methods⟩

end ClassRecord

end ClassListing
