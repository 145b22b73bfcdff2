import ClassListing.Cursor.Filtered
import ClassListing.Cursor.Peeking
import ClassListing.Cursor.Sequential
import ClassListing.Error
import ClassListing.Filter

/-!
Rendering a class: the members that a filter accepts, fields before executables, each as a text, between
a head and a foot for the class. A class without such a member has no text. The filter is asked one
member ahead of the one that is rendered.
-/

namespace ClassListing

structure Renderer where
  header : String
  filter : Filter Member
  renderMember : Member → Except Error String
  classHead : JavaClass → String
  classFoot : JavaClass → String
  suffix : String
  extension : String

namespace Renderer

/-- What rendering a class calls on: the filter, for an answer, and the parts of the text. -/
inductive Call where
  | accept (m : Member)
  | head
  | member (m : Member)
  | foot
  deriving DecidableEq, Repr

variable {W : Type}

/-! ## The members of a class, one after another -/

def lists (W : Type) : Supply W (List Member) (Peeking Member) where
  build members w := (.ofList members, w)
  ended w := w
  bound members := members.length + 1

abbrev Members := Sequential (List Member) (Peeking Member)

def memberCursor (W : Type) : Cursor W Members Member :=
  Sequential.cursor (Peeking.cursor W Member) (lists W)

/-! ## The accepted members

The calls are made one after another; `note` enters each of them into a record. -/

abbrev Accepted := Filtered Members Member

def ask (r : Renderer) (note : Call → W → W) (m : Member) (w : W) : Bool × W :=
  (r.filter.accept m, note (.accept m) w)

def acceptedCursor (r : Renderer) (note : Call → W → W) : Cursor W Accepted Member :=
  Filtered.cursor (memberCursor W) (r.ask note)

def start (r : Renderer) (note : Call → W → W) (c : JavaClass) (w : W) : Accepted × W :=
  let (s, w) := Sequential.start (lists W) [c.fields, c.methods] w
  Filtered.start (memberCursor W) (r.ask note) s w

/-! ## Rendering -/

/-- Renders the members from a cursor on, at most as many as the bound says, up to the first that
cannot be rendered. -/
def renderMembers (r : Renderer) (note : Call → W → W) :
    Nat → Accepted → W → Except Error (List String) × W
  | 0, _, w => (.ok [], w)
  | bound + 1, s, w =>
    match (r.acceptedCursor note).next s w with
    | (none, _, w) => (.ok [], w)
    | (some m, s, w) =>
      match r.renderMember m with
      | .error e => (.error e, note (.member m) w)
      | .ok text =>
        match r.renderMembers note bound s (note (.member m) w) with
        | (.error e, w) => (.error e, w)
        | (.ok texts, w) => (.ok (text :: texts), w)

def renderNoting (r : Renderer) (note : Call → W → W) (c : JavaClass) (w : W) :
    Except Error (Option String) × W :=
  let (s, w) := r.start note c w
  if s.lookahead.isNone then (.ok none, w)
  else
    match r.renderMembers note (c.memberCount + 1) s (note .head w) with
    | (.error e, w) => (.error e, w)
    | (.ok texts, w) =>
      (.ok (some (r.classHead c ++ String.join texts ++ r.classFoot c)), note .foot w)

/-- The calls of a rendering, in order. -/
def calls (r : Renderer) (c : JavaClass) : List Call :=
  (r.renderNoting (fun call made => made ++ [call]) c []).2

/-- What the leaves of the filter are asked by a call. -/
def questions (r : Renderer) : Call → List (Question Member)
  | .accept m => (r.filter.consult m).2
  | _ => []

def renderAsking (r : Renderer) (c : JavaClass) :
    Except Error (Option String) × List (Question Member) :=
  r.renderNoting (fun call asked => asked ++ r.questions call) c []

def render (r : Renderer) (c : JavaClass) : Except Error (Option String) := (r.renderAsking c).1

end Renderer

structure Formatter where
  header : String
  format : JavaClass → Except Error (Option String)

def Renderer.formatter (r : Renderer) : Formatter := ⟨r.header, r.render⟩

instance : Coe Renderer Formatter := ⟨Renderer.formatter⟩

end ClassListing
