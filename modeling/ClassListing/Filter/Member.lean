import ClassListing.Filter
import ClassListing.Member

/-!
The filters over members. There is one instance of each.
-/

namespace ClassListing

inductive MemberFilter where
  | all
  | field
  /-- Methods that are neither constructors nor static initializers. -/
  | method
  | init
  | clinit
  | executable
  | native
  /-- Public or protected members of public or protected classes. -/
  | visible
  deriving DecidableEq, Repr

namespace MemberFilter

def list : List MemberFilter :=
  [all, field, method, init, clinit, executable, native, visible]

def text : MemberFilter → String
  | all => "ALL"
  | field => "FIELD"
  | method => "METHOD"
  | init => "INIT"
  | clinit => "CLINIT"
  | executable => "EXECUTABLE"
  | native => "NATIVE"
  | visible => "VISIBLE"

def ofText? (s : String) : Option MemberFilter :=
  list.find? fun f => f.text.toLower = s.toLower

def accepts (f : MemberFilter) (m : Member) : Bool :=
  match f with
  | all => true
  | field => m.isField
  | method => m.kind = .method
  | init => m.kind = .constructor
  | clinit => m.kind = .staticInitializer
  | executable => m.isExecutable
  | native => m.modifiers.has .native
  | visible => m.modifiers.isPublicOrProtected && m.declaring.modifiers.isPublicOrProtected

def index : MemberFilter → Nat
  | all => 0
  | field => 1
  | method => 2
  | init => 3
  | clinit => 4
  | executable => 5
  | native => 6
  | visible => 7

def filter (f : MemberFilter) : Filter Member := .leaf f.index ⟨f.text, f.accepts⟩

theorem index_injective {f g : MemberFilter} (h : f.index = g.index) : f = g := by
  cases f <;> cases g <;> simp_all [index]

end MemberFilter

end ClassListing
