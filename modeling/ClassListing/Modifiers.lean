/-!
The modifiers of a class or member: a word of bits, fifteen of which are declared flags. The rendered
form has at most one access word, then the other flags in a fixed order; a synthetic member does
not show it.
-/

namespace ClassListing

inductive Flag where
  | publicAccess
  | privateAccess
  | protectedAccess
  | static
  | final
  | synchronized
  | volatile
  | transient
  | native
  | interface
  | abstract
  | strictfp
  | synthetic
  | annotation
  | enum
  deriving DecidableEq, Repr

namespace Flag

def all : List Flag :=
  [publicAccess, privateAccess, protectedAccess, static, final, synchronized, volatile, transient,
   native, interface, abstract, strictfp, synthetic, annotation, enum]

theorem mem_all (f : Flag) : f ∈ all := by cases f <;> decide

def index : Flag → Nat
  | publicAccess => 0
  | privateAccess => 1
  | protectedAccess => 2
  | static => 3
  | final => 4
  | synchronized => 5
  | volatile => 6
  | transient => 7
  | native => 8
  | interface => 9
  | abstract => 10
  | strictfp => 11
  | synthetic => 12
  | annotation => 13
  | enum => 14

def mask (f : Flag) : UInt32 := 1 <<< UInt32.ofNat f.index

def name : Flag → String
  | publicAccess => "PUBLIC"
  | privateAccess => "PRIVATE"
  | protectedAccess => "PROTECTED"
  | static => "STATIC"
  | final => "FINAL"
  | synchronized => "SYNCHRONIZED"
  | volatile => "VOLATILE"
  | transient => "TRANSIENT"
  | native => "NATIVE"
  | interface => "INTERFACE"
  | abstract => "ABSTRACT"
  | strictfp => "STRICTFP"
  | synthetic => "SYNTHETIC"
  | annotation => "ANNOTATION"
  | enum => "ENUM"

def word : Flag → String
  | publicAccess => "public"
  | privateAccess => "private"
  | protectedAccess => "protected"
  | static => "static"
  | final => "final"
  | synchronized => "synchronized"
  | volatile => "volatile"
  | transient => "transient"
  | native => "native"
  | interface => "interface"
  | abstract => "abstract"
  | strictfp => "strictfp"
  | synthetic => "synthetic"
  | annotation => "annotation"
  | enum => "enum"

def ofName? (name : String) : Option Flag := all.find? fun f => f.name = name

/-- The access flags, the one that takes precedence first. -/
def accessOrder : List Flag := [publicAccess, privateAccess, protectedAccess]

def renderOrder : List Flag :=
  [abstract, static, final, synchronized, native, transient, volatile, strictfp, annotation, enum,
   interface]

end Flag

/-- Modifiers are any word; bits without a declared flag are kept. -/
structure Modifiers where
  bits : UInt32
  deriving DecidableEq, Repr, Inhabited

namespace Modifiers

def empty : Modifiers := ⟨0⟩

def accessMask : UInt32 := 0x0007

def declaredMask : UInt32 := 0x7FFF

def has (m : Modifiers) (f : Flag) : Bool := m.bits &&& f.mask = f.mask

def ofFlag (f : Flag) : Modifiers := ⟨f.mask⟩

def union (m n : Modifiers) : Modifiers := ⟨m.bits ||| n.bits⟩

/-- Takes all bits of the second word away, declared or not. -/
def diff (m n : Modifiers) : Modifiers := ⟨m.bits &&& ~~~n.bits⟩

def intersects (m n : Modifiers) : Bool := m.bits &&& n.bits ≠ 0

def contains (m n : Modifiers) : Bool := m.bits &&& n.bits = n.bits

def declared (m : Modifiers) : Modifiers := ⟨m.bits &&& declaredMask⟩

def undeclared (m : Modifiers) : UInt32 := m.bits &&& ~~~declaredMask

def access (m : Modifiers) : Modifiers := ⟨m.bits &&& accessMask &&& declaredMask⟩

def nonAccess (m : Modifiers) : Modifiers := ⟨m.bits &&& ~~~accessMask &&& declaredMask⟩

def isPublicOrProtected (m : Modifiers) : Bool :=
  m.has .publicAccess || m.has .protectedAccess

def leadingAccess (m : Modifiers) : Option Flag := Flag.accessOrder.find? m.has

def words (m : Modifiers) : List String :=
  (m.leadingAccess.toList ++ Flag.renderOrder.filter m.has).map Flag.word

def render (m : Modifiers) : String := " ".intercalate m.words

end Modifiers

end ClassListing
