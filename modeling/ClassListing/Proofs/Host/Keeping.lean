import ClassListing.Proofs.Host.Agreement

/-!
# What names cost

Reading names from any source asks and logs, but it neither writes to the disk nor to standard output.
-/

namespace ClassListing

set_option autoImplicit false

namespace Host

/-- From the first host to the second nothing has been written. -/
structure Keeps (h k : Host) : Prop where
  disk : k.disk = h.disk
  stdout : k.stdout = h.stdout

namespace Keeps

variable {h k l : Host}

theorem refl (h : Host) : Keeps h h := ⟨rfl, rfl⟩

theorem trans (hk : Keeps h k) (kl : Keeps k l) : Keeps h l :=
  ⟨kl.disk.trans hk.disk, kl.stdout.trans hk.stdout⟩

theorem logged (hk : Keeps h k) (component : Component) (level : Level) (text : String) :
    Keeps h (k.logged component level text) := ⟨hk.disk, hk.stdout⟩

end Keeps

theorem Agree.keeps {h k : Host} (hk : Agree h k) : Keeps h k := ⟨hk.disk.symm, hk.stdout.symm⟩

end Host

open Host (Keeps)

/-! ## Archives -/

theorem Archive.askName_keeps (keeps : Filter String) (name : String) (h : Host) :
    Keeps h (askName keeps name h).2 := ⟨rfl, rfl⟩

theorem Archive.namesOf_keeps (path : String) (keeps : Filter String) (index : Nat)
    (es : List Zip.Entry) (h : Host) : Keeps h (namesOf path keeps index es h).2 := by
  induction es generalizing index h with
  | nil => exact .refl h
  | cons e es ih =>
    unfold namesOf
    split
    · exact ((Keeps.refl h).logged ..).trans (ih _ _)
    · split
      · exact ih _ _
      · cases classNameOf? e.name with
        | none => exact ih _ _
        | some name => exact (askName_keeps keeps name h).trans (ih _ _)

theorem Archive.classNames_keeps (a : Archive) (keeps : Filter String) (h : Host) :
    Keeps h (a.classNames keeps h).2 := by
  unfold classNames
  cases Zip.read? a.data with
  | none => exact .refl h
  | some entries => exact namesOf_keeps a.path keeps 0 entries h

/-! ## Class paths -/

namespace ClassPath

theorem listArchive_keeps (keeps : Filter String) (path : String) (h : Host) :
    Keeps h (listArchive keeps path h).2 := by
  unfold listArchive
  cases Archive.ofFile path h.disk with
  | error e => exact .refl h
  | ok archive => exact archive.classNames_keeps keeps h

theorem scan_keeps (keeps : Filter String) (path : String) (h : Host) :
    Keeps h (scan keeps path h).2 := by
  unfold scan
  split
  · exact (Keeps.refl h).logged ..
  · split
    · exact (Keeps.refl h).logged ..
    · have hl := listArchive_keeps keeps path h
      generalize listArchive keeps path h = x at hl
      obtain ⟨r, k⟩ := x
      cases r with
      | error e => exact hl.logged ..
      | ok names => exact hl.logged ..

theorem start_keeps (c : ClassPath) (h : Host) : Keeps h (c.start h).2 := by
  unfold start Sequential.start
  cases c.paths with
  | nil => exact .refl h
  | cons path paths => exact scan_keeps c.filter path h

end ClassPath

/-! ## Sources -/

theorem Source.feed_keeps (s : Source) (h : Host) : Keeps h (s.feed h).2.2 := by
  cases s with
  | list names => exact .refl h
  | nameFile path lines =>
    cases lines with
    | some lines => exact .refl h
    | none =>
      simp only [feed]
      cases readLines path h.disk with
      | error e => exact .refl h
      | ok lines => exact (Keeps.refl h).logged ..
  | classPath c => exact c.start_keeps h

end ClassListing
