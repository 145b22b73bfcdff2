import ClassListing.Error
import ClassListing.Host

/-!
Looking up classes by name. A session counts the look-ups that succeed and those that fail.
-/

namespace ClassListing

structure Resolver (ρ : Type) where
  resolve : String → ρ → Except Error JavaClass × ρ
  /-- Tells where later look-ups may search. -/
  setClassPath : List String → ρ → ρ

structure Session (ρ : Type) where
  state : ρ
  resolved : Nat
  failed : Nat

namespace Session

variable {ρ : Type}

def start (state : ρ) : Session ρ := ⟨state, 0, 0⟩

def resolve (s : Session ρ) (r : Resolver ρ) (name : String) : Except Error JavaClass × Session ρ :=
  match r.resolve name s.state with
  | (.ok c, state) => (.ok c, { s with state, resolved := s.resolved + 1 })
  | (.error e, state) => (.error e, { s with state, failed := s.failed + 1 })

def setClassPath (s : Session ρ) (r : Resolver ρ) (paths : List String) (h : Host) :
    Session ρ × Host :=
  ({ s with state := r.setClassPath paths s.state },
    h.debug .session s!"Resolver class path: {paths.length} entries")

def close (s : Session ρ) (h : Host) : Host :=
  h.info .session s!"Resolver session closed: {s.resolved} resolved, {s.failed} failed"

end Session

end ClassListing
