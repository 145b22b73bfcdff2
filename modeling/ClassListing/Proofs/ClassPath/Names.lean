import ClassListing.Proofs.Host.Keeping

/-!
# The names on a class path

A pass over a class path gives the classes of its archives, one archive after another, that the filter accepts.
What cannot be used as an archive adds nothing, and every class is asked about once. The invariant
of a pass is the list of the names that it is still going to give on a disk.
-/

namespace ClassListing

set_option autoImplicit false

open Host (Keeps)

/-! ## What stands on the disk -/

/-- The class of an entry that can be read, is no directory and has the suffix of classes. -/
def Zip.Entry.className? (e : Zip.Entry) : Option String :=
  if e.readable && !isDirectoryEntry e.name then classNameOf? e.name else none

/-- What ends in the suffix of classes is no directory. -/
theorem isDirectoryEntry_append_classSuffix (stem : String) :
    isDirectoryEntry (stem ++ classSuffix) = false := by
  have hlast : (stem ++ classSuffix).toList.getLast? = some 's' := by
    rw [String.toList_append, List.getLast?_append]
    rfl
  rw [isDirectoryEntry, hlast]
  rfl

theorem Zip.Entry.className?_eq_some {e : Zip.Entry} {name : String} :
    e.className? = some name ↔ e.readable = true ∧
      ∃ stem, e.name = String.ofList stem ++ classSuffix ∧ name = String.ofList (dotted stem) := by
  rw [className?, Option.ite_none_right_eq_some, classNameOf?_eq_some, Bool.and_eq_true,
    Bool.not_eq_true', and_assoc]
  refine and_congr_right fun _ => and_iff_right_of_imp ?_
  rintro ⟨stem, hname, -⟩
  rw [hname, isDirectoryEntry_append_classSuffix]

namespace ClassPath

/-- The entries of the archive at a path. There are none if the path is missing, or what stands there is a
directory, an empty file or no archive. -/
def entries? (d : Disk) (path : String) : Option (List Zip.Entry) :=
  match d.find path with
  | .error _ => none
  | .ok .directory => none
  | .ok (.file content) => if content.size = 0 then none else Zip.read? content

def usable (d : Disk) (path : String) : Bool := (entries? d path).isSome

def classesAt (d : Disk) (path : String) : List String :=
  ((entries? d path).getD []).filterMap Zip.Entry.className?

theorem classesAt_of_not_usable {d : Disk} {path : String} (h : usable d path = false) :
    classesAt d path = [] := by
  have hnone : entries? d path = none := Option.not_isSome_iff_eq_none.mp (by simpa [usable] using h)
  simp [classesAt, hnone]

/-- Only the paths that can be used matter. -/
theorem flatMap_classesAt_filter (d : Disk) (paths : List String) :
    (paths.filter (usable d)).flatMap (classesAt d) = paths.flatMap (classesAt d) := by
  induction paths with
  | nil => rfl
  | cons path paths ih =>
    cases hu : usable d path with
    | true => simp [hu, ih]
    | false => simp [hu, ih, classesAt_of_not_usable hu]

end ClassPath

/-! ## What is asked -/

/-- The questions that a filter asks its leaves about names, one name after another. -/
def Filter.questions (f : Filter String) (names : List String) : List (Question String) :=
  names.flatMap fun name => (f.consult name).2

namespace Host

/-- From the first host to the second nothing is written, and a filter is asked about these names. -/
structure Asks (keeps : Filter String) (names : List String) (h k : Host) : Prop extends Keeps h k where
  asked : k.asked = h.asked ++ keeps.questions names

namespace Asks

variable {keeps : Filter String} {names more : List String} {h k l : Host}

theorem refl (keeps : Filter String) (h : Host) : Asks keeps [] h h :=
  ⟨.refl h, (List.append_nil _).symm⟩

theorem trans (hk : Asks keeps names h k) (kl : Asks keeps more k l) :
    Asks keeps (names ++ more) h l where
  toKeeps := hk.toKeeps.trans kl.toKeeps
  asked := by rw [kl.asked, hk.asked, Filter.questions, Filter.questions, Filter.questions,
    List.flatMap_append, List.append_assoc]

theorem logged (hk : Asks keeps names h k) (component : Component) (level : Level) (text : String) :
    Asks keeps names h (k.logged component level text) :=
  ⟨hk.toKeeps.logged .., hk.asked⟩

end Asks

end Host

open Host (Asks)

/-! ## One archive -/

theorem Archive.askName_asks (keeps : Filter String) (name : String) (h : Host) :
    Asks keeps [name] h (askName keeps name h).2 where
  toKeeps := askName_keeps keeps name h
  asked := by
    rw [Filter.questions, List.flatMap_singleton]
    rfl

theorem Archive.namesOf_eq (path : String) (keeps : Filter String) (index : Nat)
    (es : List Zip.Entry) (h : Host) :
    (namesOf path keeps index es h).1 = (es.filterMap Zip.Entry.className?).filter keeps.accept ∧
      Asks keeps (es.filterMap Zip.Entry.className?) h (namesOf path keeps index es h).2 := by
  induction es generalizing index h with
  | nil => exact ⟨rfl, .refl keeps h⟩
  | cons e es ih =>
    unfold namesOf
    by_cases hr : e.readable = true
    · by_cases hd : isDirectoryEntry e.name = true
      · have hclass : e.className? = none := by simp [Zip.Entry.className?, hd]
        simp only [hr, hd, Bool.not_true, Bool.false_eq_true, if_false, if_true,
          List.filterMap_cons_none hclass]
        exact ih (index + 1) h
      · have hclass : e.className? = classNameOf? e.name := by simp [Zip.Entry.className?, hr, hd]
        simp only [hr, hd, Bool.not_true, Bool.false_eq_true, if_false]
        cases hn : classNameOf? e.name with
        | none =>
          rw [List.filterMap_cons_none (hclass.trans hn)]
          exact ih (index + 1) h
        | some name =>
          obtain ⟨hnames, hasks⟩ := ih (index + 1) (askName keeps name h).2
          rw [List.filterMap_cons_some (hclass.trans hn), List.filter_cons]
          exact ⟨by simp only [hnames]; rfl, (askName_asks keeps name h).trans hasks⟩
    · have hclass : e.className? = none := by simp [Zip.Entry.className?, hr]
      simp only [hr, Bool.not_false, if_true, List.filterMap_cons_none hclass]
      obtain ⟨hnames, hasks⟩ := ih (index + 1) (h.warn .archive
        s!"Skipping entry {index} of {path}: {ArchiveFault.unreadable.message}")
      exact ⟨hnames, ((Asks.refl keeps h).logged ..).trans hasks⟩

namespace ClassPath

theorem listArchive_eq (keeps : Filter String) {path : String} {h : Host} {content : ByteArray}
    (hf : h.disk.find path = .ok (.file content)) :
    (((listArchive keeps path h).1.toOption).getD []) =
        (classesAt h.disk path).filter keeps.accept ∧
      Asks keeps (classesAt h.disk path) h (listArchive keeps path h).2 := by
  have hm : h.disk.mapFile path = .ok content := by simp only [Disk.mapFile, Disk.readWith, hf]
  simp only [listArchive, Archive.ofFile, hm, Archive.ofBytes]
  by_cases he : content.size = 0
  · simp [he, classesAt, entries?, hf, Asks.refl, Except.toOption]
  · simp only [he, if_false, Archive.classNames, classesAt, entries?, hf]
    cases hz : Zip.read? content with
    | none => exact ⟨rfl, .refl keeps h⟩
    | some entries => exact Archive.namesOf_eq path keeps 0 entries h

/-- Scanning a path gives the accepted classes that are there, and none if the path cannot be used. -/
theorem scan_eq (keeps : Filter String) (path : String) (h : Host) :
    (scan keeps path h).1 = (classesAt h.disk path).filter keeps.accept ∧
      Asks keeps (classesAt h.disk path) h (scan keeps path h).2 := by
  unfold scan
  cases hf : h.disk.find path with
  | error e =>
    have hclasses : classesAt h.disk path = [] := by simp [classesAt, entries?, hf]
    simp only [Disk.pathExists, hf, hclasses]
    exact ⟨rfl, (Asks.refl keeps h).logged ..⟩
  | ok n =>
    cases n with
    | directory =>
      have hclasses : classesAt h.disk path = [] := by simp [classesAt, entries?, hf]
      simp only [Disk.pathExists, Disk.isDirectory, hf, hclasses]
      exact ⟨rfl, (Asks.refl keeps h).logged ..⟩
    | file content =>
      obtain ⟨hnames, hasks⟩ := listArchive_eq keeps hf
      simp only [Disk.pathExists, Disk.isDirectory, hf, Except.isOk, Except.toBool, Bool.not_true,
        Bool.false_eq_true, if_false]
      generalize listArchive keeps path h = r at hnames hasks
      obtain ⟨names, k⟩ := r
      cases names with
      | error e => exact ⟨hnames, hasks.logged ..⟩
      | ok names => exact ⟨hnames, hasks.logged ..⟩

/-! ## One archive after another -/

section

variable {keeps : Filter String} {d : Disk} {h : Host}

/-- The names that a pass is still going to give. -/
def namesAhead (keeps : Filter String) (d : Disk) (p : Pass) : List String :=
  p.current.elim [] Editable.remaining ++
    p.pending.flatMap fun path => (classesAt d path).filter keeps.accept

/-- The classes that the filter has not been asked about. -/
def unasked (d : Disk) (p : Pass) : List String := p.pending.flatMap (classesAt d)

/-- There are paths left only behind an archive. -/
def Going (p : Pass) : Prop := p.current = none → p.pending = []

/-- On the way from one pass to another the filter is asked about what is no longer unasked. -/
def AsksUpTo (keeps : Filter String) (d : Disk) (before : List String) (h : Host) (p : Pass)
    (k : Host) : Prop :=
  ∃ names, Asks keeps names h k ∧ names ++ unasked d p = before

/-- What advancing comes to: the same names are ahead, and if there are any the next one is in the current
archive. -/
structure Advanced (keeps : Filter String) (d : Disk) (xs before : List String) (h : Host)
    (r : Bool × Pass × Host) : Prop where
  ahead : namesAhead keeps d r.2.1 = xs
  more : r.1 = xs.head?.isSome
  asks : AsksUpTo keeps d before h r.2.1 r.2.2
  current : r.1 = true → ∃ c, r.2.1.current = some c ∧ c.remaining ≠ []
  ended : r.1 = false → r.2.1.current = none ∧ r.2.1.pending = []

theorem advanced_of_cons {c : Editable String} {x : String} {xs : List String}
    (hc : c.remaining = x :: xs) (pending : List String) (retired : Option (Editable String))
    (last : LastFrom) :
    Advanced keeps d
      (c.remaining ++ pending.flatMap fun path => (classesAt d path).filter keeps.accept)
      (pending.flatMap (classesAt d)) h
      (Sequential.advanceFrom scanned (supply keeps) pending c retired last h) := by
  have hm : (scanned.hasNext c h).1 = true := by simp [scanned, Editable.hasNext_remaining, hc]
  have hne : c.remaining ≠ [] := by simp [hc]
  rw [Sequential.advanceFrom_of_more hm]
  exact ⟨rfl, by simp [hc], ⟨[], .refl keeps h, rfl⟩, fun _ => ⟨c, rfl, hne⟩, by simp⟩

theorem advanceFrom_advanced (pending : List String) (c : Editable String)
    (retired : Option (Editable String)) (last : LastFrom) (hd : h.disk = d) :
    Advanced keeps d
      (c.remaining ++ pending.flatMap fun path => (classesAt d path).filter keeps.accept)
      (pending.flatMap (classesAt d)) h
      (Sequential.advanceFrom scanned (supply keeps) pending c retired last h) := by
  -- the induction is on the paths: an archive without names ahead gives way to the next
  induction pending generalizing c retired last h with
  | nil =>
    cases hc : c.remaining with
    | nil =>
      have hm : (scanned.hasNext c h).1 = false := by simp [scanned, Editable.hasNext_remaining, hc]
      rw [Sequential.advanceFrom_nil hm]
      exact ⟨rfl, rfl, ⟨[], .refl keeps h, rfl⟩, by simp, fun _ => ⟨rfl, rfl⟩⟩
    | cons x xs => exact hc ▸ advanced_of_cons hc _ retired last
  | cons path paths ih =>
    cases hc : c.remaining with
    | nil =>
      have hm : (scanned.hasNext c h).1 = false := by simp [scanned, Editable.hasNext_remaining, hc]
      obtain ⟨hnames, hscan⟩ := scan_eq keeps path h
      rw [hd] at hnames hscan
      have hrest := ih (Editable.ofList (scan keeps path h).1)
        (Sequential.kept (scanned.hasNext c h).2.1 retired last).1
        (Sequential.kept (scanned.hasNext c h).2.1 retired last).2 (hscan.disk.trans hd)
      have hahead : (Editable.ofList (scan keeps path h).1).remaining =
          (classesAt d path).filter keeps.accept := hnames
      rw [hahead] at hrest
      rw [Sequential.advanceFrom_cons hm, List.nil_append, List.flatMap_cons, List.flatMap_cons]
      obtain ⟨names, hasks, hup⟩ := hrest.asks
      exact ⟨hrest.ahead, hrest.more,
        ⟨classesAt d path ++ names, hscan.trans hasks,
          (List.append_assoc ..).trans (congrArg (classesAt d path ++ ·) hup)⟩,
        hrest.current, hrest.ended⟩
    | cons x xs => exact hc ▸ advanced_of_cons hc _ retired last

theorem advance_advanced (keeps : Filter String) {p : Pass} (hp : Going p) (hd : h.disk = d) :
    Advanced keeps d (namesAhead keeps d p) (unasked d p) h
      (Sequential.advance scanned (supply keeps) p h) := by
  obtain ⟨pending, current, retired, last⟩ := p
  cases current with
  | none =>
    have hnil : pending = [] := hp rfl
    subst hnil
    exact ⟨rfl, rfl, ⟨[], .refl keeps h, rfl⟩, by simp [Sequential.advance],
      fun _ => ⟨rfl, rfl⟩⟩
  | some c => exact advanceFrom_advanced pending c retired last hd

/-- A call gives the first of the names ahead, and leaves the others. At the end nothing is unasked. -/
theorem next_gives (keeps : Filter String) {p : Pass} (hp : Going p) (hd : h.disk = d) :
    (next keeps p h).1 = (namesAhead keeps d p).head? ∧ Going (next keeps p h).2.1 ∧
      namesAhead keeps d (next keeps p h).2.1 = (namesAhead keeps d p).tail ∧
      AsksUpTo keeps d (unasked d p) h (next keeps p h).2.1 (next keeps p h).2.2 ∧
      ((next keeps p h).1 = none → unasked d (next keeps p h).2.1 = []) := by
  obtain ⟨hahead, hmore, hasks, hcurrent, hended⟩ := advance_advanced keeps hp hd
  unfold next Sequential.next
  generalize Sequential.advance scanned (supply keeps) p h = r at *
  obtain ⟨more, ⟨pending, current, retired, last⟩, k⟩ := r
  cases more with
  | false =>
    obtain ⟨hnone, hnil⟩ := hended rfl
    dsimp only at hnone hnil
    subst hnone hnil
    have hall : namesAhead keeps d p = [] := hahead.symm
    rw [hall]
    exact ⟨rfl, fun _ => rfl, rfl, hasks, fun _ => rfl⟩
  | true =>
    obtain ⟨c, hc, hne⟩ := hcurrent rfl
    dsimp only at hc
    subst hc
    obtain ⟨x, xs, hx⟩ := List.exists_cons_of_ne_nil hne
    obtain ⟨hfirst, hrest⟩ := c.next_remaining
    rw [hx] at hfirst hrest
    have hall : namesAhead keeps d p =
        x :: (xs ++ pending.flatMap fun path => (classesAt d path).filter keeps.accept) := by
      rw [← hahead, namesAhead, Option.elim_some, hx, List.cons_append]
    have hnext : scanned.next c k = (some x, c.next.2, k) := by
      simp only [scanned, hfirst, List.head?_cons]
    rw [hall]
    simp only [hnext]
    refine ⟨rfl, by simp [Going], ?_, hasks, by simp⟩
    rw [namesAhead, Option.elim_some, hrest, List.tail_cons, List.tail_cons]

theorem drain_gives (keeps : Filter String) {p : Pass} (hp : Going p) (hd : h.disk = d) :
    ((Feed.pass keeps p).drain h).1 = namesAhead keeps d p ∧
      Asks keeps (unasked d p) h ((Feed.pass keeps p).drain h).2.2 := by
  generalize hf : Feed.pass keeps p = f
  fun_induction f.drain h generalizing p with
  | case1 f h g k hn =>
    subst hf
    obtain ⟨hfirst, -, -, ⟨names, hasks, hup⟩, hlast⟩ := next_gives keeps hp hd
    simp only [Feed.next, Prod.mk.injEq] at hn
    obtain ⟨hnone, rfl, rfl⟩ := hn
    rw [hlast hnone, List.append_nil] at hup
    rw [hnone] at hfirst
    exact ⟨(List.head?_eq_none_iff.mp hfirst.symm).symm, hup ▸ hasks⟩
  | case2 f h x g k hn xs g' l hdrain ih =>
    subst hf
    obtain ⟨hfirst, hgoing, hrest, ⟨names, hasks, hup⟩, -⟩ := next_gives keeps hp hd
    simp only [Feed.next, Prod.mk.injEq] at hn
    obtain ⟨hsome, rfl, rfl⟩ := hn
    obtain ⟨hxs, hmore⟩ := ih hgoing (hasks.disk.trans hd) rfl
    rw [hdrain] at hxs hmore
    rw [hsome] at hfirst
    obtain ⟨ys, hys⟩ := List.head?_eq_some_iff.mp hfirst.symm
    rw [hys, List.tail_cons] at hrest
    refine ⟨?_, hup ▸ hasks.trans hmore⟩
    rw [hys, ← hrest]
    exact congrArg (x :: ·) hxs

theorem start_gives (c : ClassPath) (hd : h.disk = d) :
    Going (c.start h).1 ∧
      namesAhead c.filter d (c.start h).1 =
        c.paths.flatMap (fun path => (classesAt d path).filter c.filter.accept) ∧
      AsksUpTo c.filter d (c.paths.flatMap (classesAt d)) h (c.start h).1 (c.start h).2 := by
  unfold start Sequential.start
  cases c.paths with
  | nil => exact ⟨fun _ => rfl, rfl, [], .refl c.filter h, rfl⟩
  | cons path paths =>
    obtain ⟨hnames, hscan⟩ := scan_eq c.filter path h
    rw [hd] at hnames hscan
    exact ⟨by simp [Going], congrArg (· ++ _) hnames, classesAt d path, hscan, rfl⟩

end

end ClassPath

/-- All the names of a pass, and the host after it. -/
def Source.names (s : Source) (h : Host) : Except Error (List String) × Host :=
  match s.feed h with
  | (.error e, _, h) => (.error e, h)
  | (.ok f, _, h) => (.ok (f.drain h).1, (f.drain h).2.2)

namespace ClassPath

theorem names_eq (c : ClassPath) (h : Host) :
    ((Source.classPath c).names h).1 =
        .ok ((c.paths.flatMap (classesAt h.disk)).filter c.filter.accept) ∧
      Asks c.filter (c.paths.flatMap (classesAt h.disk)) h ((Source.classPath c).names h).2 := by
  obtain ⟨hgoing, hahead, names, hasks, hup⟩ := start_gives c (h := h) rfl
  obtain ⟨hnames, hmore⟩ := drain_gives c.filter hgoing hasks.disk
  rw [hahead, ← List.filter_flatMap] at hnames
  exact ⟨congrArg Except.ok hnames, hup ▸ hasks.trans hmore⟩

/-- A pass gives the accepted classes of the archives that can be used, in the order of the paths and of the
entries, and asks about every class once. An entry has a class if it can be read and ends in the suffix;
what stands before the suffix, with dots for its slashes, is the name. Paths that cannot be used make no
difference, a second pass gives the same, and a filter gives those of all names that it accepts. -/
theorem names_of_usable_archives (c : ClassPath) (h : Host) :
    ∃ names k, (Source.classPath c).names h = (.ok names, k) ∧
      names = (c.paths.flatMap (classesAt h.disk)).filter c.filter.accept ∧
      (∀ (e : Zip.Entry) (name : String), e.className? = some name ↔
        e.readable = true ∧ ∃ stem : List Char, e.name = String.ofList stem ++ ".class" ∧
          name = String.ofList (stem.map fun char => if char = '/' then '.' else char)) ∧
      k.disk = h.disk ∧
      k.asked = h.asked ++ c.filter.questions (c.paths.flatMap (classesAt h.disk)) ∧
      ((Source.classPath c).names k).1 = .ok names ∧
      (∀ paths : List String,
        paths.filter (usable h.disk) = c.paths.filter (usable h.disk) →
        ((Source.classPath { c with paths }).names h).1 = .ok names) ∧
      ∀ n, ∃ all, ((Source.classPath { c with filter := .leaf n .everything }).names h).1 = .ok all ∧
        names = all.filter c.filter.accept := by
  obtain ⟨hnames, hasks⟩ := names_eq c h
  refine ⟨_, ((Source.classPath c).names h).2, Prod.ext hnames rfl, rfl,
    fun _ _ => Zip.Entry.className?_eq_some, hasks.disk, hasks.asked, ?_, ?_, ?_⟩
  · rw [(names_eq c _).1, hasks.disk]
  · intro paths hpaths
    rw [(names_eq _ h).1, ← flatMap_classesAt_filter, hpaths, flatMap_classesAt_filter]
  · intro n
    refine ⟨c.paths.flatMap (classesAt h.disk), ?_, rfl⟩
    have hall : ∀ x : String, (Filter.leaf n Criterion.everything).accept x = true := fun _ => rfl
    rw [(names_eq _ h).1, List.filter_eq_self.mpr fun x _ => hall x]

end ClassPath

end ClassListing
