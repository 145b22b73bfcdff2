import ClassListing.Proofs.ClassPath.Names
import ClassListing.Proofs.Cursor.Progress

/-!
# Archives are scanned on demand

An archive of a class path is scanned when all names of the archives before it have been taken and there is
a call for one more.
-/

namespace ClassListing

set_option autoImplicit false

namespace ClassPath

def scannedReading : scanned.Reading where
  Valid := Editable.Valid
  left := Editable.remaining
  next {c} _ hc := ⟨c.next_remaining.1, hc.next, c.next_remaining.2⟩
  hasNext {c} _ hc := ⟨c.hasNext_remaining, hc, rfl⟩
  remove _ hc := ⟨hc.remove, Editable.remove_remaining hc⟩
  length_le _ := Nat.le_of_eq (List.length_drop ..)

/-- On a disk that nothing changes an archive has the names that the filter accepts. -/
theorem supply_furnishes (keeps : Filter String) (d : Disk) :
    (supply keeps).Furnishes scannedReading (fun h => h.disk = d)
      fun path => (classesAt d path).filter keeps.accept where
  valid path h _ := Editable.valid_ofList (scan keeps path h).1
  left path h hd := hd ▸ (scan_eq keeps path h).1
  build path h hd := (scan_eq keeps path h).2.disk.trans hd
  ended hd := hd
  perform op c h hd := by cases op <;> exact hd

end ClassPath

namespace Sequential

open ClassPath (classesAt scanned supply)

variable {W π σ α : Type}

/-- A sequence makes its first sub-cursor at the start, and another one only when a call that reads finds the
newest exhausted; beside the newest it keeps the one that a removal is about. So an archive of a
class path is scanned when the names of all archives before it have been taken and one more is
asked for. -/
theorem sub_cursors_made_on_demand (C : Cursor W σ α) (S : Supply W π σ) (plans : List π) (w : W)
    (ops : List Cursor.Operation) :
    (recordedStart α S plans w).2.2 = (if plans.isEmpty then [.ended] else [.made]) ∧
    OnDemand C S plans (recordedRun C S plans w ops) ∧
    Alike Eq (Image Eq fun c t => c.2 = t) (fun v u => v.1 = u) (recordedRun C S plans w ops)
      ((cursor C S).run ops (start S plans w).1 (start S plans w).2) ∧
    ∀ (c : ClassPath) (h : Host) (op : Cursor.Operation) (i : Nat), op ≠ .remove →
      (i + 1 < made (recordedRun scanned (supply c.filter) c.paths h (ops ++ [op])).2.2.2 ↔
        i + 1 < c.paths.length ∧
          upTo (fun path => (classesAt h.disk path).filter c.filter.accept) c.paths (i + 1) <+:
            (recordedRun scanned (supply c.filter) c.paths h ops).1.filterMap
              Cursor.Answer.yielded) := by
  refine ⟨by cases plans <;> rfl, recordedRun_onDemand C S plans w ops,
    recordedRun_alike C S plans w ops, ?_⟩
  intro c h op i hop
  exact made_recordedRun_iff (ClassPath.supply_furnishes c.filter h.disk) c.paths rfl ops hop i

end Sequential

end ClassListing
