import ClassListing.Modifiers

/-!
Resolved classes: a class with its members in the order of their declaration. Every member knows the
name and modifiers of its class.
-/

namespace ClassListing

inductive MemberKind where
  | field
  /-- A method that is neither a constructor nor the static initializer. -/
  | method
  | constructor
  | staticInitializer
  deriving DecidableEq, Repr

namespace MemberKind

def all : List MemberKind := [field, method, constructor, staticInitializer]

def text : MemberKind → String
  | field => "field"
  | method => "method"
  | constructor => "constructor"
  | staticInitializer => "static_initializer"

def ofText? (s : String) : Option MemberKind := all.find? fun k => k.text = s

theorem ofText?_text (k : MemberKind) : ofText? k.text = some k := by cases k <;> decide

def isExecutable : MemberKind → Bool
  | field => false
  | _ => true

theorem isExecutable_iff (k : MemberKind) : k.isExecutable = true ↔ k ≠ field := by
  cases k <;> decide

/-- Constructors and the static initializer return nothing, whatever their declared type. -/
def isInitializer : MemberKind → Bool
  | constructor => true
  | staticInitializer => true
  | _ => false

end MemberKind

structure ClassInfo where
  name : String
  modifiers : Modifiers
  deriving DecidableEq, Repr

structure Member where
  declaring : ClassInfo
  kind : MemberKind
  modifiers : Modifiers
  type : String
  name : String
  parameters : List String
  varargs : Bool
  synthetic : Bool
  bridge : Bool
  deriving DecidableEq, Repr

namespace Member

def isField (m : Member) : Bool := m.kind = .field

def isExecutable (m : Member) : Bool := m.kind.isExecutable

theorem isExecutable_iff (m : Member) : m.isExecutable = true ↔ m.kind ≠ .field :=
  m.kind.isExecutable_iff

def returnType (m : Member) : String := if m.kind.isInitializer then "void" else m.type

def parameterList (m : Member) : String := ",".intercalate m.parameters

def signature (m : Member) : String :=
  if m.isField then m.type ++ " " ++ m.name
  else m.returnType ++ " " ++ m.name ++ "(" ++ m.parameterList ++ ")"

end Member

structure JavaClass where
  info : ClassInfo
  fields : List Member
  methods : List Member
  deriving DecidableEq, Repr

namespace JavaClass

def name (c : JavaClass) : String := c.info.name

def modifiers (c : JavaClass) : Modifiers := c.info.modifiers

def members (c : JavaClass) : List Member := c.fields ++ c.methods

def memberCount (c : JavaClass) : Nat := c.fields.length + c.methods.length

theorem length_members (c : JavaClass) : c.members.length = c.memberCount := by
  simp [members, memberCount]

end JavaClass

end ClassListing
