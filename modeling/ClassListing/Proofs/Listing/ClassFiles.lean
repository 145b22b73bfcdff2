import ClassListing.Proofs.Catalog.Listing
import ClassListing.Proofs.ClassPath.Names
import ClassListing.Proofs.Renderer.ClassFiles

/-!
# Class files listed from a class path

The class files of a class path are listed under the paths of their entries, as long as no dot stands in a path
before the suffix. The sink may write where it likes if the archives stay as they are.
-/

namespace ClassListing

set_option autoImplicit false

open Host (Keeps)

/-! ## What is left of a sequence only gets less -/

namespace Sequential

variable {W π σ α : Type} {C : Cursor W σ α} {S : Supply W π σ}

theorem advanceFrom_pending_suffix (pending : List π) (c : σ) (retired : Option σ) (last : LastFrom)
    (w : W) : (advanceFrom C S pending c retired last w).2.1.pending <:+ pending := by
  induction pending generalizing c retired last w with
  | nil =>
    cases hm : (C.hasNext c w).1 with
    | true => rw [advanceFrom_of_more hm]
    | false => rw [advanceFrom_nil hm]
  | cons p ps ih =>
    cases hm : (C.hasNext c w).1 with
    | true => rw [advanceFrom_of_more hm]
    | false =>
      rw [advanceFrom_cons hm]
      exact (ih ..).trans (List.suffix_cons p ps)

theorem next_pending_suffix (s : Sequential π σ) (w : W) :
    (next C S s w).2.1.pending <:+ s.pending := by
  have ha : (advance C S s w).2.1.pending <:+ s.pending := by
    unfold advance
    split
    · exact List.suffix_rfl
    · exact advanceFrom_pending_suffix ..
  unfold next
  generalize advance C S s w = r at ha
  obtain ⟨more, ⟨pending, current, retired, last⟩, v⟩ := r
  cases more with
  | false => exact ha
  | true =>
    cases current with
    | none => exact ha
    | some c =>
      dsimp only
      split <;> exact ha

end Sequential

namespace ClassPath

/-! ## Names that a pass gives while a listing writes -/

/-- Whatever is written, what can be read of the archives stays the same. -/
structure Undisturbed {σ : Type} (d : Disk) (paths : List String) (Good : σ → Host → Prop) : Prop where
  entries : ∀ {s h}, Good s h → ∀ path ∈ paths, entries? h.disk path = entries? d path
  keeps : ∀ {s h k}, Good s h → Keeps h k → Good s k

theorem namesAhead_congr (keeps : Filter String) {d e : Disk} {p : Pass}
    (h : ∀ path ∈ p.pending, entries? d path = entries? e path) :
    namesAhead keeps d p = namesAhead keeps e p := by
  have hsame : ∀ path ∈ p.pending,
      (classesAt d path).filter keeps.accept = (classesAt e path).filter keeps.accept := by
    intro path hm
    rw [classesAt, classesAt, h path hm]
  rw [namesAhead, namesAhead, List.flatMap_congr hsame]

section

variable {σ : Type} {d : Disk} {paths : List String} {Good : σ → Host → Prop} {p : Pass}

/-- One call gives the first of the names ahead and leaves the others ahead. -/
theorem next_undisturbed (keeps : Filter String) (hu : Undisturbed d paths Good) (hp : Going p)
    (hpending : p.pending ⊆ paths) {s : σ} {h : Host} (hg : Good s h) :
    (next keeps p h).1 = (namesAhead keeps d p).head? ∧ Good s (next keeps p h).2.2 ∧
      Going (next keeps p h).2.1 ∧ (next keeps p h).2.1.pending ⊆ paths ∧
      namesAhead keeps d (next keeps p h).2.1 = (namesAhead keeps d p).tail := by
  have hsame {q : Pass} (hq : q.pending ⊆ paths) :
      namesAhead keeps h.disk q = namesAhead keeps d q :=
    namesAhead_congr keeps fun path hm => hu.entries hg path (hq hm)
  obtain ⟨hfirst, hgoing, hrest, ⟨_, hasks, -⟩, -⟩ := next_gives keeps hp (h := h) rfl
  have hpending' : (next keeps p h).2.1.pending ⊆ paths :=
    List.Subset.trans (Sequential.next_pending_suffix p h).subset hpending
  rw [hsame hpending] at hfirst hrest
  rw [hsame hpending'] at hrest
  exact ⟨hfirst, hu.keeps hg hasks.toKeeps, hgoing, hpending', hrest⟩

theorem pass_gives (keeps : Filter String) (hu : Undisturbed d paths Good) (names : List String)
    (hp : Going p) (hpending : p.pending ⊆ paths) (hn : namesAhead keeps d p = names) :
    (Feed.pass keeps p).Gives Good names := by
  induction names generalizing p with
  | nil =>
    intro s h hg
    obtain ⟨hfirst, hg', -⟩ := next_undisturbed keeps hu hp hpending hg
    rw [hn] at hfirst
    exact ⟨hfirst, hg'⟩
  | cons name names ih =>
    intro s h hg
    obtain ⟨hfirst, hg', hgoing, hpending', hrest⟩ := next_undisturbed keeps hu hp hpending hg
    rw [hn] at hfirst hrest
    exact ⟨hfirst, hg', ih hgoing hpending' hrest⟩

end

/-! ## Entries and the names of their classes -/

/-- The paths of the entries at a path whose classes the filter accepts. -/
def classFilesAt (keeps : Filter String) (d : Disk) (path : String) : List String :=
  (((entries? d path).getD []).filter fun e => e.className?.any keeps.accept).map Zip.Entry.name

theorem classFilesAt_names (keeps : Filter String) (d : Disk) (path : String) :
    List.Forall₂ (fun file name => classNameOf? file = some name) (classFilesAt keeps d path)
      ((classesAt d path).filter keeps.accept) := by
  unfold classFilesAt classesAt
  induction (entries? d path).getD [] with
  | nil => exact .nil
  | cons e es ih =>
    cases hc : e.className? with
    | none => simpa [hc] using ih
    | some name =>
      cases ha : keeps.accept name with
      | false => simpa [hc, ha] using ih
      | true =>
        have hname : classNameOf? e.name = some name := by
          rw [Zip.Entry.className?] at hc
          split at hc
          · exact hc
          · cases hc
        simpa [hc, ha] using And.intro hname ih

def classFiles (c : ClassPath) (d : Disk) : List String :=
  c.paths.flatMap (classFilesAt c.filter d)

def names (c : ClassPath) (d : Disk) : List String :=
  c.paths.flatMap fun path => (classesAt d path).filter c.filter.accept

theorem classFiles_names (c : ClassPath) (d : Disk) :
    List.Forall₂ (fun file name => classNameOf? file = some name) (c.classFiles d) (c.names d) := by
  unfold classFiles names
  induction c.paths with
  | nil => exact .nil
  | cons path paths ih => exact List.rel_append (classFilesAt_names c.filter d path) ih

end ClassPath

/-- Class files are listed under their own paths if and only if no dot stands in one before the suffix. -/
theorem Renderer.map_classFile_eq_iff {files names : List String}
    (h : List.Forall₂ (fun file name => classNameOf? file = some name) files names) :
    names.map classFile = files ↔
      ∀ file ∈ files, ∀ stem, file = String.ofList stem ++ classSuffix → '.' ∉ stem := by
  induction h with
  | nil => simp
  | @cons file name files names hname _ ih =>
    obtain ⟨stem, hfile, -⟩ := classNameOf?_eq_some.mp hname
    rw [List.map_cons, List.cons.injEq, ih, List.forall_mem_cons]
    refine and_congr_left fun _ => ⟨fun heq stem' hstem => ?_, fun hstem => ?_⟩
    · exact (classFile_eq_iff hname hstem).mp heq
    · exact (classFile_eq_iff hname hfile).mpr (hstem stem hfile)

/-! ## The listing -/

namespace Job

variable {ρ σ : Type}

/-- If every name is found and its class has a text, these texts are written, and nothing else. -/
theorem calls_of_written {j : Job ρ σ} (session : Session ρ) {Good : σ → Host → Prop}
    (hk : j.sink.Reliable Good) {source : Source} {sink : σ} {h : Host} {feed : Feed}
    {names texts : List String} (hf : (source.feed h).1 = .ok feed) (hn : feed.Gives Good names)
    (ha : (j.sink.acquire sink (source.feed h).2.2).1 = .ok ())
    (hg : Good (j.sink.acquire sink (source.feed h).2.2).2.1
      (j.sink.acquire sink (source.feed h).2.2).2.2)
    (hheader : j.formatter.header = "")
    (hwritten : j.fates names session.state = texts.map Fate.written) :
    let r := j.recorded.run source (session.recording []) (sink, []) h
    (∃ s, r.1 = .ok s) ∧ r.2.2.sink.2 = .acquire :: (texts.map .write ++ [.release]) := by
  obtain ⟨hfail, -, htexts, -⟩ :=
    @run_bringsAbout _ _ j Good hk source session sink h feed names hf hn ha hg
  have hnone : ((texts.map Fate.written).findSome? Fate.failure?) = none := by
    simp [List.findSome?_map, Fate.failure?]
  have hstop : j.stop names session.state = (texts.map Fate.written).length := by
    refine hwritten ▸ List.findIdx_eq_length.mpr fun f hm => ?_
    obtain ⟨text, -, rfl⟩ := List.mem_map.mp (hwritten ▸ hm)
    rfl
  rw [hwritten] at hfail htexts
  rw [hstop, List.take_length, if_pos hheader, List.nil_append] at htexts
  have hall : (texts.map Fate.written).filterMap Fate.text? = texts :=
    (List.filterMap_map ..).trans List.filterMap_some
  rw [run_recording]
  refine ⟨exists_ok_of_failure (hfail.trans hnone), ?_⟩
  change (j.history source session sink h).filterMap Step.call? = _
  rw [calls_of_acquire session hf ha, htexts, hall]

end Job

open Catalog (resolver after empty)
open ClassPath (Undisturbed)
open Renderer (classFile activeFilter lineEnd)

variable {σ : Type}

/-- A class path gives its names as long as its archives stay as they are. -/
theorem ClassPath.feed_gives (c : ClassPath) {h : Host} {Good : σ → Host → Prop}
    (hu : Undisturbed h.disk c.paths Good) :
    ((Source.classPath c).feed h).1 = .ok (.pass c.filter (c.start h).1) ∧
      (Feed.pass c.filter (c.start h).1).Gives Good (c.names h.disk) := by
  obtain ⟨hgoing, hahead, -⟩ := start_gives c (h := h) rfl
  have hpending : (c.start h).1.pending ⊆ c.paths := by
    unfold start Sequential.start
    cases c.paths with
    | nil => exact List.Subset.refl _
    | cons path paths => exact List.subset_cons_self path paths
  exact ⟨rfl, pass_gives c.filter hu _ hgoing hpending hahead⟩

/-- The fates of names whose classes are there and have a member to show. -/
theorem Catalog.fates_classFiles {caller : Option (Filter Member)} {k : Sink σ} (calls : List Call)
    {names : List String} (hnames : ∀ name ∈ names, ∃ c, (after calls empty).resolve name = .ok c ∧
      ∃ m ∈ c.members, (activeFilter caller).accept m = true) :
    Job.fates ⟨resolver, Renderer.classFiles caller, k⟩ names (after calls empty) =
      (names.map fun name => classFile name ++ lineEnd).map Fate.written := by
  rw [fates_eq, List.map_map]
  refine List.map_congr_left fun name hm => ?_
  obtain ⟨c, hc, hshown⟩ := hnames name hm
  have hname : c.name = name := by
    rw [after_eq_insertAll, resolve_insertAll] at hc
    exact name_of_lookup hc
  have hrender := Renderer.render_classFiles hshown
  rw [hname] at hrender
  simp only [Formatter.fate, hc, Function.comp_apply, Renderer.formatter, hrender]

namespace Sink.Call

def line (text : String) : Sink.Call := .write (text ++ "\n")

theorem line_injective {s t : String} (h : line s = line t) : s = t :=
  (String.append_left_inj lineEnd).mp (write.inj h)

end Sink.Call

/-- The name of a class and the path of its file give each other as long as dots and slashes stay apart. So
class files are listed from a class path under the paths of their entries, in order and one on a
line, if and only if no dot stands in such a path before the suffix. -/
theorem Renderer.class_file_listing_inverts_scan (caller : Option (Filter Member)) :
    (∀ (stem : List Char) (file : String) (c : JavaClass), file = String.ofList stem ++ ".class" →
      classNameOf? file = some c.name → (∃ m ∈ c.members, (activeFilter caller).accept m = true) →
      ∃ line, (classFiles caller).render c = .ok (some line) ∧ (line = file ++ "\n" ↔ '.' ∉ stem)) ∧
    (∀ c : JavaClass, (∃ m ∈ c.members, (activeFilter caller).accept m = true) →
      ∃ line, (classFiles caller).render c = .ok (some (line ++ "\n")) ∧
        classNameOf? line =
          some (String.ofList (c.name.toList.map fun x => if x = '/' then '.' else x)) ∧
        (classNameOf? line = some c.name ↔ '/' ∉ c.name.toList)) ∧
    ∀ {σ : Type} {k : Sink σ} {Good : σ → Host → Prop} (_ : k.Reliable Good) (c : ClassPath)
      {h : Host} (_ : Undisturbed h.disk c.paths Good) {sink : σ}
      (_ : (k.acquire sink (c.start h).2).1 = .ok ())
      (_ : Good (k.acquire sink (c.start h).2).2.1 (k.acquire sink (c.start h).2).2.2)
      (calls : List Catalog.Call) (session : Session Catalog)
      (_ : session.state = after calls empty)
      (_ : ∀ name ∈ c.names h.disk, ∃ found, session.state.resolve name = .ok found ∧
        ∃ m ∈ found.members, (activeFilter caller).accept m = true),
      let j : Job Catalog σ := ⟨resolver, classFiles caller, k⟩
      let r := j.recorded.run (.classPath c) (session.recording []) (sink, []) h
      (∃ summary, r.1 = .ok summary) ∧
      (r.2.2.sink.2 = .acquire ::
          ((c.classFiles h.disk).map .line ++ [.release]) ↔
        ∀ file ∈ c.classFiles h.disk, ∀ stem, file = String.ofList stem ++ ".class" → '.' ∉ stem) := by
  refine ⟨?_, ?_, ?_⟩
  · intro stem file c hfile hname hshown
    refine ⟨_, render_classFiles hshown, ?_⟩
    rw [← classFile_eq_iff hname hfile]
    exact String.append_left_inj lineEnd
  · intro c hshown
    refine ⟨classFile c.name, render_classFiles hshown, classNameOf?_classFile c.name, ?_⟩
    rw [classNameOf?_classFile, Option.some.injEq, ← dotted_eq_self]
    constructor
    · intro heq
      simpa using congrArg String.toList heq
    · intro heq
      rw [heq, String.ofList_toList]
  · intro σ k Good hk c h hu sink ha hg calls session hs hnames j r
    obtain ⟨hf, hgives⟩ := c.feed_gives hu
    rw [hs] at hnames
    have hfates := Catalog.fates_classFiles (k := k) calls hnames
    rw [← hs] at hfates
    obtain ⟨hok, hcalls⟩ := Job.calls_of_written (j := j) session hk hf hgives ha hg rfl hfates
    refine ⟨hok, Iff.trans ?_ (map_classFile_eq_iff (c.classFiles_names h.disk))⟩
    have hlines : ((c.names h.disk).map fun name => classFile name ++ lineEnd).map Sink.Call.write =
        ((c.names h.disk).map classFile).map .line := by simp only [List.map_map]; rfl
    rw [hcalls, hlines, List.cons_inj_right]
    exact (List.append_left_inj _).trans (List.map_inj_right fun _ _ => Sink.Call.line_injective)

/-- Standard output is a sink that leaves every archive alone. -/
theorem TerminalSink.reliable_undisturbed (d : Disk) (paths : List String) :
    TerminalSink.sink.Reliable (fun s h => s.waiting.isSome ∧ h.disk = d) ∧
      Undisturbed d paths fun (s : TerminalSink) h => s.waiting.isSome ∧ h.disk = d where
  left := {
    write := by
      rintro s h text ⟨hs, rfl⟩
      obtain ⟨waiting, hw⟩ := Option.isSome_iff_exists.mp hs
      simp [TerminalSink.sink, TerminalSink.write, hw]
    release := fun hg => TerminalSink.reliable.release hg.1
    logged := fun _ _ _ hg => hg }
  right := {
    entries := by
      rintro s h ⟨-, rfl⟩ path -
      rfl
    keeps := fun hg hk => ⟨hg.1, hk.disk.trans hg.2⟩ }

/-- An archive with two classes, and a catalog with both. -/
theorem Renderer.class_files_of_archive_listed :
    let stored (name : String) : List UInt8 := [80, 75, 3, 4] ++ List.replicate 22 0 ++
      [name.utf8ByteSize.toUInt8, 0, 0, 0] ++ name.toUTF8.data.toList
    let listed (name : String) (offset : UInt8) : List UInt8 := [80, 75, 1, 2] ++
      List.replicate 24 0 ++ [name.utf8ByteSize.toUInt8, 0] ++ List.replicate 12 0 ++
      [offset, 0, 0, 0] ++ name.toUTF8.data.toList
    let bytes : List UInt8 := stored "p/A.class" ++ stored "q/B.class" ++
      listed "p/A.class" 0 ++ listed "q/B.class" 39 ++
      [80, 75, 5, 6, 0, 0, 0, 0, 2, 0, 2, 0, 110, 0, 0, 0, 78, 0, 0, 0, 0, 0]
    let h := Host.ofDisk ⟨[(["a.jar"], .file ⟨bytes.toArray⟩)], []⟩ []
    let field : MemberRecord := ⟨none, .empty, "int", "size", [], false, false, false⟩
    let calls : List Catalog.Call := [.insert ⟨"p.A", .empty, [field], []⟩,
      .insert ⟨"q.B", .empty, [field], []⟩]
    let c : ClassPath := ⟨["a.jar"], .leaf 0 .everything⟩
    let j : Job Catalog TerminalSink := ⟨resolver, classFiles none, TerminalSink.sink⟩
    let r := j.recorded.run (.classPath c) ((Session.start (after calls empty)).recording [])
      (TerminalSink.closed, []) h
    r.2.2.sink.2 = [.acquire, .write "p/A.class\n", .write "q/B.class\n", .release] := by
  intro stored listed bytes h field calls c j r
  have hentries : ClassPath.entries? h.disk "a.jar" =
      some [⟨"p/A.class", true⟩, ⟨"q/B.class", true⟩] := by decide +kernel
  have hfiles : c.classFiles h.disk = ["p/A.class", "q/B.class"] := by
    rw [ClassPath.classFiles, List.flatMap_singleton, ClassPath.classFilesAt, hentries]
    decide +kernel
  have hnames : c.names h.disk = ["p.A", "q.B"] := by
    rw [ClassPath.names, List.flatMap_singleton, ClassPath.classesAt, hentries]
    decide +kernel
  have hfound : ∀ name ∈ c.names h.disk, ∃ found, (after calls empty).resolve name = .ok found ∧
      ∃ m ∈ found.members, (activeFilter none).accept m = true := by
    rw [hnames, Catalog.after_eq_insertAll]
    intro name hm
    rw [Catalog.resolve_insertAll]
    have hshown : ∀ name ∈ ["p.A", "q.B"], ((Catalog.lookup (Catalog.added calls) name).toOption.any
        fun found => found.members.any (activeFilter none).accept) = true := by decide +kernel
    have hone := hshown name hm
    cases hl : Catalog.lookup (Catalog.added calls) name with
    | error e => simp [hl, Except.toOption] at hone
    | ok found => exact ⟨found, rfl, by simpa [hl, Except.toOption] using hone⟩
  -- of the archive and the catalog no more is needed than has been computed
  clear_value h calls
  obtain ⟨hk, hu⟩ := TerminalSink.reliable_undisturbed h.disk c.paths
  obtain ⟨-, -, _, hasks, -⟩ := ClassPath.start_gives c (h := h) rfl
  have hopen (k : Host) : TerminalSink.sink.acquire TerminalSink.closed k = (.ok (), ⟨some ""⟩, k) :=
    rfl
  obtain ⟨-, hcalls⟩ := (class_file_listing_inverts_scan none).2.2 hk c hu
    (congrArg Prod.fst (hopen _)) (by rw [hopen]; exact ⟨rfl, hasks.disk⟩) calls
    (Session.start (after calls empty)) rfl hfound
  have hdots : ∀ file ∈ c.classFiles h.disk, ∀ stem, file = String.ofList stem ++ ".class" →
      '.' ∉ stem :=
    (map_classFile_eq_iff (c.classFiles_names h.disk)).mp (by rw [hnames, hfiles]; decide +kernel)
  exact (hcalls.mpr hdots).trans (by rw [hfiles]; rfl)

end ClassListing
