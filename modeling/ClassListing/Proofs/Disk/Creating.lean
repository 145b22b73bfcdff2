import ClassListing.Proofs.Disk.Elsewhere

/-!
# Where files are made

A file that is made in a directory stands right below the place that the directory's path leads to.
-/

namespace ClassListing

set_option autoImplicit false

/-! ## Parts of joined paths -/

theorem Text.split_append_sep (sep : Char) (cs ds : List Char) :
    split sep (cs ++ sep :: ds) = split sep cs ++ split sep ds := by
  induction cs with
  | nil => exact split_sep sep ds
  | cons c cs ih =>
    by_cases h : c = sep
    · rw [h, List.cons_append, split_sep, split_sep, ih, List.cons_append]
    · obtain ⟨p, ps, hp, hc⟩ := split_cons h cs
      obtain ⟨q, qs, hq, hc'⟩ := split_cons h (cs ++ sep :: ds)
      rw [ih, hp, List.cons_append] at hq
      cases hq
      rw [hc, List.cons_append, hc', List.cons_append]

namespace Path

/-- A name of a file: not empty and without a slash. -/
structure IsName (name : String) : Prop where
  ne_empty : name ≠ ""
  no_slash : '/' ∉ name.toList

variable {dir name : String}

theorem IsName.parts_eq (h : IsName name) : parts name = [name] := by
  rw [parts, Text.splitString, Text.split_of_not_mem h.no_slash]
  simp

theorem IsName.not_absolute (h : IsName name) : isAbsolute name = false := by
  cases hcs : name.toList with
  | nil => simp [isAbsolute, hcs]
  | cons c cs =>
    have hc : c ≠ '/' := by
      rintro rfl
      exact h.no_slash (by simp [hcs])
    simp [isAbsolute, hcs, hc]

theorem join_cases (hd : dir ≠ "") (h : IsName name) :
    (dir.toList.getLast? = some '/' ∧ join dir name = dir ++ name) ∨
      join dir name = dir ++ "/" ++ name := by
  simp only [join, h.not_absolute, Bool.false_eq_true, if_false, hd, decide_false, Bool.false_or]
  by_cases hs : dir.toList.getLast? = some '/'
  · exact .inl ⟨hs, by simp [hs]⟩
  · exact .inr (by simp [hs])

/-- The parts of the directory, less the last one if the directory ends in a slash, and the name. -/
theorem parts_join (hd : dir ≠ "") (h : IsName name) :
    ∃ before, parts (join dir name) = before ++ [name] ∧
      (parts dir = before ∨ parts dir = before ++ [""]) := by
  have hparts : (Text.split '/' name.toList).map String.ofList = [name] := h.parts_eq
  rcases join_cases hd h with ⟨hs, hj⟩ | hj
  · obtain ⟨cs, hcs⟩ := List.getLast?_eq_some_iff.mp hs
    refine ⟨(Text.split '/' cs).map String.ofList, ?_, .inr ?_⟩
    · simp [hj, parts, Text.splitString, hcs, Text.split_append_sep, hparts]
    · simp [parts, Text.splitString, hcs, Text.split_append_sep]
  · refine ⟨parts dir, ?_, .inl rfl⟩
    simp [hj, parts, Text.splitString, Text.split_append_sep, hparts]

theorem isAbsolute_join (hd : dir ≠ "") (h : IsName name) :
    isAbsolute (join dir name) = isAbsolute dir := by
  obtain ⟨c, cs, hcs⟩ := List.exists_cons_of_ne_nil (mt String.toList_eq_nil_iff.mp hd)
  rcases join_cases hd h with ⟨-, hj⟩ | hj <;> simp [hj, isAbsolute, hcs]

end Path

namespace Disk

variable {d e : Disk} {dir name : String} {loc : Location}

theorem splitLast_append (before : List String) (h : name ≠ "") :
    splitLast (before ++ [name]) = (before, some name, false) := by
  simp [splitLast, h]

/-- No slash follows the last name only if that name is the last part. -/
theorem eq_append_of_splitLast {names before : List String}
    (h : splitLast names = (before, some name, false)) : names = before ++ [name] ∧ name ≠ "" := by
  rcases List.eq_nil_or_concat names with rfl | ⟨init, last, rfl⟩
  · cases h
  · rw [List.concat_eq_append] at h ⊢
    by_cases hl : last = ""
    · subst hl
      simp only [splitLast, List.reverse_append, List.reverse_singleton, List.singleton_append,
        List.head?_cons] at h
      split at h <;> simp at h
    · rw [splitLast_append init hl] at h
      cases h
      exact ⟨rfl, hl⟩

/-- What it takes to make a file at a path: a directory, and a name in it that no directory has. -/
structure MakesAt (d : Disk) (path : String) (before : List String) (name : String)
    (place : Location) : Prop where
  usable : checkPath path = .ok ()
  parts : Path.parts path = before ++ [name]
  walk : d.walk (d.origin path) before = .ok place
  directory : d.node? place = some .directory
  ne_empty : name ≠ ""
  ne_dots : name ≠ "." ∧ name ≠ ".."
  short : ¬ longestName < name.utf8ByteSize
  free : d.node? (place ++ [name]) ≠ some .directory

theorem target_eq_ok_iff {path : String} :
    d.target path = .ok loc ↔
      ∃ before name place, d.MakesAt path before name place ∧ loc = place ++ [name] := by
  constructor
  · intro h
    unfold target at h
    split at h
    · cases h
    · next hpath =>
      split at h
      · cases h
      · next before name slash hlast =>
        split at h
        · cases h
        · next place hwalk =>
          split at h
          · next hplace =>
            split at h
            · cases h
            · next hname =>
              split at h
              · cases h
              · next hshort =>
                split at h
                · cases h
                · next hfree =>
                  cases h
                  simp only [Bool.or_eq_true, decide_eq_true_eq, not_or, Bool.not_eq_true] at hname
                  obtain ⟨⟨rfl, hdot⟩, hdots⟩ := hname
                  obtain ⟨hparts, hne⟩ := eq_append_of_splitLast hlast
                  exact ⟨before, name, place,
                    ⟨hpath, hparts, hwalk, hplace, hne, ⟨hdot, hdots⟩, hshort, hfree⟩, rfl⟩
          · cases h
          · cases h
  · rintro ⟨before, name, place, h, rfl⟩
    simp [target, h.usable, h.parts, splitLast_append before h.ne_empty, h.walk, h.directory, h.ne_dots,
      h.short, h.free]

theorem ne_nil_of_target {path : String} (h : d.target path = .ok loc) : loc ≠ [] := by
  obtain ⟨before, name, place, -, rfl⟩ := target_eq_ok_iff.mp h
  simp

theorem create_eq_ok_iff {path : String} :
    d.create path = .ok (loc, e) ↔ d.target path = .ok loc ∧ e = d.put loc (.file .empty) := by
  unfold create
  cases d.target path with
  | error err => simp [Except.map]
  | ok l =>
    simp only [Except.map, Except.ok.injEq, Prod.mk.injEq]
    constructor <;>
    · rintro ⟨rfl, rfl⟩
      exact ⟨rfl, rfl⟩

theorem checkPath_of_join (hd : dir ≠ "") (h : Path.IsName name)
    (hc : checkPath (Path.join dir name) = .ok ()) : checkPath dir = .ok () := by
  obtain ⟨more, hj⟩ : ∃ more, Path.join dir name = dir ++ more := by
    rcases Path.join_cases hd h with ⟨-, hj⟩ | hj
    · exact ⟨name, hj⟩
    · exact ⟨"/" ++ name, hj.trans (String.append_assoc ..)⟩
  unfold checkPath at hc ⊢
  rw [hj] at hc
  split at hc
  · cases hc
  · next hnul =>
    split at hc
    · cases hc
    · split at hc
      · cases hc
      · next hlong =>
        have hnul' : ¬ dir.toList.contains '\x00' = true := by
          simp only [String.toList_append, List.contains_iff_mem, List.mem_append, not_or] at hnul ⊢
          exact hnul.1
        have hlong' : ¬ pathLimit ≤ dir.utf8ByteSize := by
          rw [String.utf8ByteSize_append] at hlong
          omega
        rw [if_neg hnul', if_neg hd, if_neg hlong']

theorem eq_workingDirectory_of_locate {place : Location} (h : d.locate "." = .ok place) :
    place = d.workingDirectory := by
  have hparts : Path.parts "." = ["."] := by decide +kernel
  have hrelative : Path.isAbsolute "." = false := by decide +kernel
  unfold locate at h
  split at h
  · cases h
  · simp only [hparts, origin, hrelative, walk] at h
    cases hs : d.step d.workingDirectory "." with
    | error e => simp [hs] at h
    | ok l =>
      have hl : d.step d.workingDirectory "." = .ok d.workingDirectory := by
        simp [step, directory_of_step hs]
      simpa [hl] using h.symm

/-- Making a file replaces what stands right below the place of the directory, and that is no directory. -/
theorem create_join (hd : dir ≠ "") (h : Path.IsName name)
    (hc : d.create (Path.join dir name) = .ok (loc, e)) :
    ∃ place, d.locate dir = .ok place ∧ d.node? place = some .directory ∧ loc = place ++ [name] ∧
      d.node? loc ≠ some .directory ∧ e = d.put loc (.file .empty) := by
  obtain ⟨ht, rfl⟩ := create_eq_ok_iff.mp hc
  obtain ⟨before, last, place, hm, rfl⟩ := target_eq_ok_iff.mp ht
  obtain ⟨before', hjoin, hdir⟩ := Path.parts_join hd h
  obtain ⟨rfl, hlast⟩ := List.append_inj' (hm.parts.symm.trans hjoin) rfl
  obtain rfl : name = last := (List.singleton_inj.mp hlast).symm
  have horigin : d.origin (Path.join dir name) = d.origin dir := by
    rw [origin, Path.isAbsolute_join hd h, origin]
  have hwalk : d.walk (d.origin dir) before = .ok place := horigin ▸ hm.walk
  have hlocate : d.locate dir = .ok place := by
    simp only [locate, checkPath_of_join hd h hm.usable]
    rcases hdir with hdir | hdir
    · rw [hdir, hwalk]
    · simp [hdir, walk_append, hwalk, walk, step, hm.directory]
  exact ⟨place, hlocate, hm.directory, rfl, hm.free, rfl⟩

/-! ## Making a file again -/

/-- What stands where a file is made is what the path leads to. -/
theorem find_of_target {path : String} {content : ByteArray} (ht : d.target path = .ok loc)
    (hf : d.node? loc = some (.file content)) : d.find path = .ok (.file content) := by
  obtain ⟨before, name, place, hm, rfl⟩ := target_eq_ok_iff.mp ht
  have hstep : d.step place name = .ok (place ++ [name]) := by
    simp [step, hm.directory, hm.ne_empty, hm.ne_dots, hm.short, hf]
  have hlocate : d.locate path = .ok (place ++ [name]) := by
    simp [locate, hm.usable, hm.parts, walk_append, hm.walk, walk, hstep]
  simp only [find, hlocate, hf]

/-- A file that has been made can be made again, at the same place. -/
theorem target_elsewhere {path : String} (ht : d.target path = .ok loc) (hde : SameElsewhere loc d e)
    (he : e.HasFile loc) : e.target path = .ok loc := by
  obtain ⟨before, name, place, hm, rfl⟩ := target_eq_ok_iff.mp ht
  have hplace : place ≠ place ++ [name] := by simp
  refine target_eq_ok_iff.mpr ⟨before, name, place, { hm with walk := ?_, directory := ?_, free := ?_ }, rfl⟩
  · rw [← origin_eq hde]
    exact walk_with_file hde hm.free he hm.walk
  · rw [← hde.node place hplace]
    exact hm.directory
  · exact he.not_directory

end Disk

end ClassListing
