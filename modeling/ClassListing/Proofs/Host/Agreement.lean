import ClassListing.Proofs.Cursor.Image
import ClassListing.Source

/-!
# Hosts that agree

The log and the environment of a host decide nothing once the class path is known: hosts that agree in all else
give the same names, and still agree afterwards.
-/

namespace ClassListing

set_option autoImplicit false

variable {α : Type}

namespace Host

/-- The two hosts differ in their logs and environments at most. -/
structure Agree (h k : Host) : Prop where
  disk : h.disk = k.disk
  stdout : h.stdout = k.stdout
  asked : h.asked = k.asked

namespace Agree

variable {h k l : Host}

theorem refl (h : Host) : Agree h h := ⟨rfl, rfl, rfl⟩

theorem symm (hk : Agree h k) : Agree k h := ⟨hk.disk.symm, hk.stdout.symm, hk.asked.symm⟩

theorem trans (hk : Agree h k) (kl : Agree k l) : Agree h l :=
  ⟨hk.disk.trans kl.disk, hk.stdout.trans kl.stdout, hk.asked.trans kl.asked⟩

theorem logged (hk : Agree h k) (component : Component) (level : Level) (text : String) :
    Agree h (k.logged component level text) := ⟨hk.disk, hk.stdout, hk.asked⟩

/-- Logging on both sides, of the same or of other texts. -/
theorem logged_both (hk : Agree h k) (c c' : Component) (level level' : Level) (text text' : String) :
    Agree (h.logged c level text) (k.logged c' level' text') := ⟨hk.disk, hk.stdout, hk.asked⟩

end Agree

/-- The same result, and the hosts still agree. -/
structure AgreeWith (x y : α × Host) : Prop where
  result : x.1 = y.1
  host : Agree x.2 y.2

end Host

open Host (Agree AgreeWith)

variable {h k : Host}

/-! ## Archives -/

namespace Archive

theorem askName_agrees (hk : Agree h k) (keeps : Filter String) (name : String) :
    AgreeWith (askName keeps name h) (askName keeps name k) :=
  ⟨rfl, hk.disk, hk.stdout, congrArg (· ++ (keeps.consult name).2) hk.asked⟩

theorem namesOf_agrees (hk : Agree h k) (path : String) (keeps : Filter String) (index : Nat)
    (es : List Zip.Entry) :
    AgreeWith (namesOf path keeps index es h) (namesOf path keeps index es k) := by
  induction es generalizing index h k with
  | nil => exact ⟨rfl, hk⟩
  | cons e es ih =>
    unfold namesOf
    by_cases hr : e.readable = true
    · by_cases hd : isDirectoryEntry e.name = true
      · simp only [hr, hd, Bool.not_true, Bool.false_eq_true, if_false, if_true]
        exact ih hk _
      · simp only [hr, hd, Bool.not_true, Bool.false_eq_true, if_false]
        cases classNameOf? e.name with
        | none => exact ih hk _
        | some name =>
          have ha := askName_agrees hk keeps name
          have hrest := ih ha.host (index + 1)
          exact ⟨by simp only [ha.result, hrest.result], hrest.host⟩
    · simp only [hr, Bool.not_false, if_true]
      exact ih (hk.logged_both ..) _

theorem classNames_agrees (hk : Agree h k) (a : Archive) (keeps : Filter String) :
    AgreeWith (a.classNames keeps h) (a.classNames keeps k) := by
  unfold classNames
  cases Zip.read? a.data with
  | none => exact ⟨rfl, hk⟩
  | some entries =>
    have hn := namesOf_agrees hk a.path keeps 0 entries
    exact ⟨congrArg Except.ok hn.result, hn.host⟩

end Archive

/-! ## Class paths -/

namespace ClassPath

theorem listArchive_agrees (hk : Agree h k) (keeps : Filter String) (path : String) :
    AgreeWith (listArchive keeps path h) (listArchive keeps path k) := by
  unfold listArchive
  rw [← hk.disk]
  cases Archive.ofFile path h.disk with
  | error e => exact ⟨rfl, hk⟩
  | ok archive => exact Archive.classNames_agrees hk archive keeps

theorem scan_agrees (hk : Agree h k) (keeps : Filter String) (path : String) :
    AgreeWith (scan keeps path h) (scan keeps path k) := by
  unfold scan
  rw [← hk.disk]
  split
  · exact ⟨rfl, hk.logged_both ..⟩
  · split
    · exact ⟨rfl, hk.logged_both ..⟩
    · have hl := listArchive_agrees hk keeps path
      generalize listArchive keeps path h = x at hl
      generalize listArchive keeps path k = y at hl
      obtain ⟨r, h'⟩ := x
      obtain ⟨_, k'⟩ := y
      obtain ⟨rfl, hhost⟩ := hl
      cases r with
      | error e => exact ⟨rfl, hhost.logged_both ..⟩
      | ok names => exact ⟨rfl, hhost.logged_both ..⟩

theorem supply_image (keeps : Filter String) :
    (supply keeps).Image Eq Eq Agree (supply keeps) where
  build := by
    rintro path _ h k rfl hk
    have hs := scan_agrees hk keeps path
    exact ⟨congrArg Editable.ofList hs.result, hs.host⟩
  ended hk := hk
  bound := by
    rintro _ _ rfl
    rfl

/-- Going through what has been scanned has nothing to do with the host. -/
theorem scanned_image (Q : Host → Host → Prop) : scanned.Image id Eq Q scanned where
  next := by
    rintro c _ h k rfl hk
    exact ⟨(Option.map_id ▸ rfl), rfl, hk⟩
  hasNext := by
    rintro c _ h k rfl hk
    exact ⟨rfl, rfl, hk⟩
  remove := by
    rintro c _ h k rfl hk
    exact ⟨rfl, rfl, hk⟩
  bound := by
    rintro c _ rfl
    rfl

theorem rel_eq_iff {σ : Type} {a b : Option σ} : Option.Rel Eq a b ↔ a = b := by
  constructor
  · rintro (hab | _)
    · rw [hab]
    · rfl
  · rintro rfl
    cases a with
    | none => exact .none
    | some x => exact .some rfl

theorem image_eq_iff {s t : Pass} : Sequential.Image Eq Eq s t ↔ s = t := by
  obtain ⟨ps, c, r, l⟩ := s
  obtain ⟨qs, d, r', l'⟩ := t
  constructor
  · rintro ⟨hp, hc, hr, hl⟩
    simp only [List.forall₂_eq_eq_eq, rel_eq_iff] at hp hc hr hl
    rw [hp, hc, hr, hl]
  · intro he
    cases he
    refine ⟨?_, rel_eq_iff.mpr rfl, rel_eq_iff.mpr rfl, rfl⟩
    rw [List.forall₂_eq_eq_eq]

theorem start_agrees (hk : Agree h k) (c : ClassPath) : AgreeWith (c.start h) (c.start k) := by
  have hp : List.Forall₂ Eq c.paths c.paths := by rw [List.forall₂_eq_eq_eq]
  obtain ⟨hs, hw⟩ := Sequential.start_image (supply_image c.filter) hp hk
  exact ⟨image_eq_iff.mp hs, hw⟩

theorem next_agrees (hk : Agree h k) (keeps : Filter String) (p : Pass) :
    Alike Eq Eq Agree (next keeps p h) (next keeps p k) := by
  obtain ⟨hr, hs, hw⟩ :=
    Sequential.next_image (scanned_image Agree) (supply_image keeps) (image_eq_iff.mpr (rfl : p = p)) hk
  exact ⟨(hr.trans (congrFun Option.map_id _)).symm, image_eq_iff.mp hs, hw⟩

end ClassPath

/-! ## Sources -/

theorem Feed.next_agrees (hk : Agree h k) (f : Feed) : Alike Eq Eq Agree (f.next h) (f.next k) := by
  cases f with
  | names rest => cases rest <;> exact ⟨rfl, rfl, hk⟩
  | pass keeps p =>
    obtain ⟨hr, hs, hw⟩ := ClassPath.next_agrees hk keeps p
    exact ⟨hr, congrArg (Feed.pass keeps) hs, hw⟩

theorem Source.feed_agrees (hk : Agree h k) (s : Source) :
    Alike Eq Eq Agree (s.feed h) (s.feed k) := by
  cases s with
  | list names => exact ⟨rfl, rfl, hk⟩
  | nameFile path lines =>
    cases lines with
    | some lines => exact ⟨rfl, rfl, hk⟩
    | none =>
      simp only [feed, ← hk.disk]
      cases readLines path h.disk with
      | error e => exact ⟨rfl, rfl, hk⟩
      | ok lines => exact ⟨rfl, rfl, hk.logged_both ..⟩
  | classPath c =>
    obtain ⟨hr, hw⟩ := ClassPath.start_agrees hk c
    exact ⟨congrArg (fun p => Except.ok (Feed.pass c.filter p)) hr, rfl, hw⟩

end ClassListing
