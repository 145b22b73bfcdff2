import ClassListing.Proofs.Cursor.Image

/-!
# Cursors that are observed

An observed cursor does what the cursor does and enters every call, with its answer, in a record beside the
world. Observing changes no answer, no state and nothing in the world.
-/

namespace ClassListing

set_option autoImplicit false

variable {W V π σ ι α : Type}

namespace Cursor

/-- `note` enters a call in the record: from the state before it, its answer and the record so far. -/
def observed (C : Cursor W σ α) (note : σ → Answer α → V → V) : Cursor (W × V) σ α where
  next s w :=
    let (x, t, v) := C.next s w.1
    (x, t, v, note s (.next x) w.2)
  hasNext s w :=
    let (more, t, v) := C.hasNext s w.1
    (more, t, v, note s (.hasNext more) w.2)
  remove s w :=
    let (r, t, v) := C.remove s w.1
    (r, t, v, note s (.remove r) w.2)
  bound := C.bound

theorem observed_image (C : Cursor W σ α) (note : σ → Answer α → V → V) :
    (C.observed note).Image (fun x => x) Eq (fun w v => w.1 = v) C where
  next := by
    rintro s - w - rfl rfl
    exact ⟨by simp [observed], rfl, rfl⟩
  hasNext := by
    rintro s - w - rfl rfl
    exact ⟨rfl, rfl, rfl⟩
  remove := by
    rintro s - w - rfl rfl
    exact ⟨rfl, rfl, rfl⟩
  bound := by
    rintro s - rfl
    rfl

theorem map_answers_id (as : List (Answer α)) : as.map (Answer.map fun x => x) = as := by
  have h : ∀ a : Answer α, a.map (fun x => x) = a := by
    intro a
    cases a <;> simp [Answer.map]
  exact (List.map_congr_left fun a _ => h a).trans as.map_id

end Cursor

end ClassListing
