import ClassListing.Host

/-!
# What directories list

A directory that can be read lists the names right below it at which something stands, each once. So hosts on
whose disks the same stands everywhere list the same names, in whatever order each of them goes through its
directories.
-/

namespace ClassListing

set_option autoImplicit false

theorem nodup_eraseDups {α : Type} [BEq α] [LawfulBEq α] : (xs : List α) → xs.eraseDups.Nodup
  | [] => by simp
  | x :: xs => by
    rw [List.eraseDups_cons, List.nodup_cons]
    exact ⟨by simp [List.mem_eraseDups], nodup_eraseDups _⟩
termination_by xs => xs.length
decreasing_by exact Nat.lt_succ_of_le (List.length_filter_le _ xs)

namespace Disk

variable {d e : Disk}

theorem nodup_namesIn (d : Disk) (place : Location) : (d.namesIn place).Nodup := nodup_eraseDups _

theorem mem_namesIn_iff {place : Location} {name : String} :
    name ∈ d.namesIn place ↔ (d.node? (place ++ [name])).isSome := by
  have hbelow : (d.node? (place ++ [name])).isSome ↔ ∃ n, (place ++ [name], n) ∈ d.nodes := by
    simp [node?, List.lookup_isSome_iff]
  rw [namesIn, List.mem_eraseDups, List.mem_filterMap, hbelow]
  constructor
  · rintro ⟨⟨l, n⟩, hl, hname⟩
    refine ⟨n, ?_⟩
    rcases List.eq_nil_or_concat l with rfl | ⟨init, last, rfl⟩
    · cases hname
    · simp_all
  · rintro ⟨n, hn⟩
    exact ⟨_, hn, by simp⟩

/-- The same stands everywhere. The disks may enumerate it in different orders. -/
structure SameTree (d e : Disk) : Prop where
  workingDirectory : d.workingDirectory = e.workingDirectory
  node : ∀ l, d.node? l = e.node? l

namespace SameTree

theorem symm (h : SameTree d e) : SameTree e d := ⟨h.workingDirectory.symm, fun l => (h.node l).symm⟩

theorem step_eq (h : SameTree d e) (l : Location) (name : String) : d.step l name = e.step l name := by
  simp only [step, h.node]

theorem walk_eq (h : SameTree d e) (l : Location) (names : List String) :
    d.walk l names = e.walk l names := by
  induction names generalizing l with
  | nil => rfl
  | cons name names ih =>
    simp only [walk, h.step_eq]
    cases e.step l name with
    | error err => rfl
    | ok m => exact ih m

theorem locate_eq (h : SameTree d e) (path : String) : d.locate path = e.locate path := by
  simp only [locate, origin, h.workingDirectory, h.walk_eq]

theorem isFile_eq (h : SameTree d e) (path : String) : d.isFile path = e.isFile path := by
  simp only [isFile, find, h.locate_eq, h.node]

end SameTree

end Disk

namespace Host

variable {h k : Host} {path : String} {place : Location}

/-- The path leads to a directory, and its names can be read. -/
structure Lists (h : Host) (path : String) (place : Location) : Prop where
  located : h.disk.locate path = .ok place
  directory : h.disk.node? place = some .directory
  readable : place ∉ h.unlisted

theorem Lists.list?_eq (hl : h.Lists path place) : h.list? path = some (h.disk.namesIn place) := by
  simp [list?, hl.located, hl.directory, hl.readable]

theorem list?_eq_none_iff : h.list? path = none ↔ ∀ place, ¬ h.Lists path place := by
  constructor
  · intro hn place hl
    rw [hl.list?_eq] at hn
    cases hn
  · intro hn
    unfold list?
    split
    · rfl
    · next place hlocate =>
      refine if_neg fun hread => hn place ?_
      simp only [Bool.and_eq_true, decide_eq_true_eq, Bool.not_eq_true', List.contains_eq_mem,
        decide_eq_false_iff_not] at hread
      exact ⟨hlocate, hread.1, hread.2⟩

theorem Lists.unique {place' : Location} (hl : h.Lists path place) (hl' : h.Lists path place') :
    place = place' := Except.ok.inj (hl.located.symm.trans hl'.located)

/-- The same stands everywhere, and the same directories can be read. -/
structure SameTree (h k : Host) : Prop where
  disk : h.disk.SameTree k.disk
  unlisted : ∀ place, place ∈ h.unlisted ↔ place ∈ k.unlisted

theorem SameTree.symm (hk : h.SameTree k) : k.SameTree h :=
  ⟨hk.disk.symm, fun place => (hk.unlisted place).symm⟩

theorem Lists.of_sameTree (hl : h.Lists path place) (hk : h.SameTree k) : k.Lists path place where
  located := (hk.disk.locate_eq path).symm.trans hl.located
  directory := (hk.disk.node place).symm.trans hl.directory
  readable := mt (hk.unlisted place).mpr hl.readable

end Host

end ClassListing
