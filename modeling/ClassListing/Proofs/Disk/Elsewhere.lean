import ClassListing.Disk

/-!
# Disks that differ in one file

What a path leads to does not depend on a file that it does not lead to. So a file can be made and written
while others are read, as long as no path that is read leads to it.
-/

namespace ClassListing

set_option autoImplicit false

namespace Disk

/-- The two disks differ at one location at most. -/
structure SameElsewhere (loc : Location) (d e : Disk) : Prop where
  workingDirectory : d.workingDirectory = e.workingDirectory
  node : ∀ l, l ≠ loc → d.node? l = e.node? l

/-- There is a file at the location. -/
def HasFile (d : Disk) (loc : Location) : Prop := ∃ content, d.node? loc = some (.file content)

variable {d e : Disk} {loc l m : Location} {path : String}

theorem SameElsewhere.symm (h : SameElsewhere loc d e) : SameElsewhere loc e d :=
  ⟨h.workingDirectory.symm, fun l hl => (h.node l hl).symm⟩

theorem SameElsewhere.trans {c : Disk} (h : SameElsewhere loc d e) (hc : SameElsewhere loc e c) :
    SameElsewhere loc d c :=
  ⟨h.workingDirectory.trans hc.workingDirectory, fun l hl => (h.node l hl).trans (hc.node l hl)⟩

theorem sameElsewhere_put (d : Disk) (hloc : loc ≠ []) (n : DiskNode) :
    SameElsewhere loc d (d.put loc n) where
  workingDirectory := rfl
  node l hl := by rw [node?_put hloc, if_neg hl]

theorem ne_nil_of_file {content : ByteArray} (h : d.node? loc = some (.file content)) : loc ≠ [] := by
  rintro rfl
  cases h

theorem hasFile_put (d : Disk) (hloc : loc ≠ []) (content : ByteArray) :
    (d.put loc (.file content)).HasFile loc :=
  ⟨content, by rw [node?_put hloc, if_pos rfl]⟩

theorem append_toUTF8 {text : String} (h : d.node? loc = some (.file text.toUTF8)) (more : String) :
    d.append loc more = d.put loc (.file (text ++ more).toUTF8) := by
  have hbytes : (text ++ more).toUTF8 = text.toUTF8 ++ more.toUTF8 := String.toByteArray_append
  simp only [append, h, hbytes]

theorem HasFile.not_directory (h : d.HasFile loc) : d.node? loc ≠ some .directory := by
  obtain ⟨content, hc⟩ := h
  rw [hc]
  nofun

/-! ## Steps and walks -/

theorem directory_of_step {name : String} (h : d.step l name = .ok m) :
    d.node? l = some .directory := by
  unfold step at h
  split at h
  · assumption
  · cases h
  · cases h

theorem ne_of_step {name : String} (hd : d.node? loc ≠ some .directory)
    (h : d.step l name = .ok m) : l ≠ loc := by
  rintro rfl
  exact hd (directory_of_step h)

/-- A step that does not lead to a missing file can be made on the other disk too. -/
theorem step_elsewhere (hde : SameElsewhere loc d e) {name : String} (hl : l ≠ loc)
    (hm : m ≠ loc ∨ (e.node? loc).isSome) (h : d.step l name = .ok m) :
    e.step l name = .ok m := by
  have hdir := directory_of_step h
  have hdir' : e.node? l = some .directory := (hde.node l hl).symm.trans hdir
  unfold step at h ⊢
  simp only [hdir, hdir'] at h ⊢
  by_cases hstay : (decide (name = "") || decide (name = ".")) = true
  · rw [if_pos hstay] at h ⊢
    exact h
  rw [if_neg hstay] at h ⊢
  by_cases hup : name = ".."
  · rw [if_pos hup] at h ⊢
    exact h
  rw [if_neg hup] at h ⊢
  by_cases hlong : longestName < name.utf8ByteSize
  · rw [if_pos hlong] at h
    cases h
  rw [if_neg hlong] at h ⊢
  by_cases hsome : (d.node? (l ++ [name])).isSome = true
  · rw [if_pos hsome] at h
    cases h
    have hsome' : (e.node? (l ++ [name])).isSome = true := by
      by_cases heq : l ++ [name] = loc
      · rw [heq] at hm ⊢
        exact hm.resolve_left fun hne => hne rfl
      · rw [← hde.node _ heq]
        exact hsome
    rw [if_pos hsome']
  · rw [if_neg hsome] at h
    cases h

theorem walk_of_hasFile (hd : d.HasFile loc) {names : List String} (h : d.walk loc names = .ok m) :
    m = loc := by
  cases names with
  | nil =>
    cases h
    rfl
  | cons name names =>
    unfold walk at h
    split at h
    · next l hs => exact absurd (directory_of_step hs) hd.not_directory
    · cases h

/-- With the file every walk goes as it does without it. -/
theorem walk_with_file (hde : SameElsewhere loc d e) (hd : d.node? loc ≠ some .directory)
    (he : e.HasFile loc) {names : List String} (h : d.walk l names = .ok m) :
    e.walk l names = .ok m := by
  induction names generalizing l with
  | nil => exact h
  | cons name names ih =>
    unfold walk at h ⊢
    split at h
    · next l' hs =>
      obtain ⟨content, hc⟩ := he
      have hsome : (e.node? loc).isSome := by rw [hc]; rfl
      rw [step_elsewhere hde (ne_of_step hd hs) (.inr hsome) hs]
      exact ih h
    · cases h

/-- A walk that does not lead to the file goes as it does without it. -/
theorem walk_without_file (hde : SameElsewhere loc d e) (he : e.HasFile loc) {names : List String}
    (hm : m ≠ loc) (h : e.walk l names = .ok m) : d.walk l names = .ok m := by
  induction names generalizing l with
  | nil => exact h
  | cons name names ih =>
    unfold walk at h ⊢
    split at h
    · next l' hs =>
      have hl' : l' ≠ loc := by
        rintro rfl
        exact hm (walk_of_hasFile he h)
      rw [step_elsewhere hde.symm (ne_of_step he.not_directory hs) (.inl hl') hs]
      exact ih h
    · cases h

theorem walk_append (d : Disk) (l : Location) (names more : List String) :
    d.walk l (names ++ more) = match d.walk l names with
      | .ok m => d.walk m more
      | .error e => .error e := by
  induction names generalizing l with
  | nil => rfl
  | cons name names ih =>
    simp only [List.cons_append, walk]
    cases d.step l name with
    | ok m => exact ih m
    | error e => rfl

/-! ## Paths -/

theorem origin_eq (hde : SameElsewhere loc d e) (path : String) : d.origin path = e.origin path := by
  unfold origin
  rw [hde.workingDirectory]

theorem locate_with_file (hde : SameElsewhere loc d e) (hd : d.node? loc ≠ some .directory)
    (he : e.HasFile loc) (h : d.locate path = .ok m) : e.locate path = .ok m := by
  unfold locate at h ⊢
  split at h
  · cases h
  · rw [← origin_eq hde]
    exact walk_with_file hde hd he h

theorem locate_without_file (hde : SameElsewhere loc d e) (he : e.HasFile loc) (hm : m ≠ loc)
    (h : e.locate path = .ok m) : d.locate path = .ok m := by
  unfold locate at h ⊢
  split at h
  · cases h
  · rw [origin_eq hde]
    exact walk_without_file hde he hm h

/-- What a path leads to that does not lead to the file. The reasons for leading nowhere may differ. -/
theorem find_elsewhere (hde : SameElsewhere loc d e) (hd : d.node? loc ≠ some .directory)
    (he : e.HasFile loc) (hp : e.locate path ≠ .ok loc) :
    (d.find path).toOption = (e.find path).toOption := by
  unfold find
  cases h : d.locate path with
  | ok m =>
    have h' := locate_with_file hde hd he h
    have hm : m ≠ loc := by
      rintro rfl
      exact hp h'
    simp only [h', hde.node m hm]
  | error err =>
    cases h' : e.locate path with
    | ok m =>
      have hm : m ≠ loc := by
        rintro rfl
        exact hp h'
      rw [locate_without_file hde he hm h'] at h
      cases h
    | error err' => rfl

theorem locate_ne_of_hasFile (hde : SameElsewhere loc d e) (hd : d.HasFile loc) (he : e.HasFile loc)
    (hp : d.locate path ≠ .ok loc) : e.locate path ≠ .ok loc :=
  fun h => hp (locate_with_file hde.symm he.not_directory hd h)

end Disk

end ClassListing
