import ClassListing.Proofs.CommandLine.Preparation
import ClassListing.Proofs.Host.Keeping
import ClassListing.Proofs.Listing.Completion

/-!
# Good inputs

The exit code of a listing says whether the files that the command line names as inputs are good: the
catalogs, and the file with the names or the class path. All of them are read before the output is
touched, so if one is not good nothing has been written.
-/

namespace ClassListing

set_option autoImplicit false

/-! ## Files that are good -/

def Disk.HoldsText (d : Disk) (path : String) : Prop := ∃ text, d.readText path = .ok text

/-- The records may still be malformed. -/
def Disk.HoldsCatalog (d : Disk) (path : String) : Prop :=
  ∃ content rs, d.read path = .ok content ∧ ClassRecord.listOfJson content.data.toList = .ok rs

def Disk.CanCreate (d : Disk) (path : String) : Prop := ∃ created, d.create path = .ok created

instance decidableExistsOk {ε α : Type} (r : Except ε α) : Decidable (∃ x, r = .ok x) :=
  match r with
  | .ok x => isTrue ⟨x, rfl⟩
  | .error _ => isFalse fun ⟨_, h⟩ => nomatch h

instance (d : Disk) (path : String) : Decidable (d.HoldsText path) :=
  inferInstanceAs (Decidable (∃ text, d.readText path = .ok text))

instance (d : Disk) (path : String) : Decidable (d.CanCreate path) :=
  inferInstanceAs (Decidable (∃ created, d.create path = .ok created))

instance (d : Disk) (path : String) : Decidable (d.HoldsCatalog path) :=
  match h : d.read path with
  | .error _ => isFalse fun ⟨_, _, hc, _⟩ => nomatch h.symm.trans hc
  | .ok content =>
    decidable_of_iff (∃ rs, ClassRecord.listOfJson content.data.toList = .ok rs)
      ⟨fun ⟨rs, hrs⟩ => ⟨content, rs, h, hrs⟩,
        fun ⟨_, rs, hc, hrs⟩ => ⟨rs, Except.ok.inj (h.symm.trans hc) ▸ hrs⟩⟩

theorem exists_readLines_iff {path : String} {d : Disk} :
    (∃ lines, readLines path d = .ok lines) ↔ d.HoldsText path := by
  unfold readLines Disk.HoldsText
  cases d.readText path <;> simp

theorem Catalog.exists_ofFiles_iff {paths : List String} {h : Host} :
    (∃ c, (ofFiles paths h).1 = .ok c) ↔ ∀ path ∈ paths, h.disk.HoldsCatalog path := by
  have hrecords : ∀ path, (∃ rs, (Call.loadFile path h).records = .ok rs) ↔
      h.disk.HoldsCatalog path := by
    intro path
    simp only [Call.records, Disk.HoldsCatalog]
    cases h.disk.read path with
    | error e => simp
    | ok content =>
      cases hj : ClassRecord.listOfJson content.data.toList <;> simp [hj, Except.mapError]
  simp only [ofFiles, loadFiles_eq_ok_iff, hrecords, exists_and_left, exists_eq, and_true]

def Selection.file? : Selection → Option String
  | nameFile path => some path
  | classPathFile path _ => some path
  | _ => none

open Host (Keeps)

namespace Invocation

/-- The files that the command line names as inputs are good. What the class path holds is no input. -/
structure InputsGood (i : Invocation) (d : Disk) : Prop where
  catalogs : ∀ path ∈ i.catalogs, d.HoldsCatalog path
  selection : ∀ path ∈ i.selection.file?, d.HoldsText path

instance (i : Invocation) (d : Disk) : Decidable (i.InputsGood d) :=
  decidable_of_iff ((∀ path ∈ i.catalogs, d.HoldsCatalog path) ∧
    ∀ path ∈ i.selection.file?, d.HoldsText path) ⟨fun h => ⟨h.1, h.2⟩, fun h => ⟨h.1, h.2⟩⟩

/-- The file that the listing is written to, if the names can be selected. -/
def outputFile? (i : Invocation) (h : Host) : Option String :=
  match (i.source h).1, i.destination with
  | .ok (source, _), .file directory _ => some (Path.join directory (fileName source i.renderer))
  | _, _ => none

/-! ## Selecting the names -/

variable {i : Invocation} {h k : Host}

/-- A class path file is read at once. -/
theorem exists_bad_file_of_source_error {f : Failure} (hs : (i.source h).1 = .error f) :
    ∃ path ∈ i.selection.file?, ¬ h.disk.HoldsText path := by
  unfold source at hs
  cases hsel : i.selection with
  | classes names => simp [hsel] at hs
  | nameFile path => simp [hsel] at hs
  | boot => simp [hsel] at hs
  | classPathFile path platformOnly =>
    refine ⟨path, rfl, fun hgood => ?_⟩
    obtain ⟨lines, hl⟩ := exists_readLines_iff.mpr hgood
    simp [hsel, ClassPath.ofFile, hl] at hs

/-- A name file is read when the names are asked for. -/
theorem exists_feed_iff {source : Source} {paths : List String}
    (hs : (i.source h).1 = .ok (source, paths)) (hk : Keeps h k) :
    (∃ feed, (source.feed k).1 = .ok feed) ↔ ∀ path ∈ i.selection.file?, h.disk.HoldsText path := by
  unfold Invocation.source at hs
  cases hsel : i.selection with
  | classes names =>
    simp only [hsel, Except.ok.injEq, Prod.mk.injEq] at hs
    simp [← hs.1, Source.feed, Selection.file?]
  | nameFile path =>
    simp only [hsel, Except.ok.injEq, Prod.mk.injEq] at hs
    rw [← hs.1]
    simp only [Source.ofNameFile, Source.feed, Selection.file?, Option.mem_def, Option.some.injEq,
      forall_eq', ← exists_readLines_iff, ← hk.disk]
    cases readLines path k.disk <;> simp
  | boot =>
    simp only [hsel, Except.ok.injEq, Prod.mk.injEq] at hs
    simp [← hs.1, Source.feed, Selection.file?]
  | classPathFile path platformOnly =>
    simp only [hsel, ClassPath.ofFile] at hs
    simp only [Selection.file?, Option.mem_def, Option.some.injEq, forall_eq', ← exists_readLines_iff]
    cases hl : readLines path h.disk with
    | error e => simp [hl] at hs
    | ok lines =>
      simp only [hl, Except.ok.injEq, Prod.mk.injEq] at hs
      simp [← hs.1, Source.feed]

/-! ## Loading the catalogs -/

theorem exists_session_iff (paths : List String) :
    (∃ s, (i.session paths h).1 = .ok s) ↔ ∀ path ∈ i.catalogs, h.disk.HoldsCatalog path := by
  rw [session_fst, ← Catalog.exists_ofFiles_iff]
  cases (Catalog.ofFiles i.catalogs h).1 <;> simp

/-! ## Writing the listing -/

theorem renderer_never_fails (i : Invocation) (c : JavaClass) :
    ∃ text, i.renderer.render c = .ok text :=
  i.style.1.exists_render (by
    intro g hg
    cases hg
    exact MemberFilter.identified _) FilterScope.firstFree c

/-- Once the names are there, only the output file can be in the way. -/
theorem exists_write {source : Source} {feed : Feed} (session : Session Catalog)
    (hf : (source.feed h).1 = .ok feed)
    (ho : ∀ directory summary, i.destination = .file directory summary →
      h.disk.CanCreate (Path.join directory (fileName source i.renderer))) :
    ∃ x, (i.write source session h).1 = .ok x := by
  unfold write
  cases hd : i.destination with
  | terminal =>
    let j : Job Catalog TerminalSink := ⟨Catalog.resolver, i.renderer, TerminalSink.sink⟩
    obtain ⟨summary, hok⟩ := Job.run_completes (j := j) TerminalSink.reliable
      (Catalog.neverStops i.renderer_never_fails _) session hf
      (rfl : (TerminalSink.acquire .closed (source.feed h).2.2).1 = .ok ()) rfl
    simp only
    rcases hr : j.run source session .closed h with ⟨r, source', p⟩
    rw [hr] at hok
    cases hok
    exact ⟨_, rfl⟩
  | file directory json =>
    obtain ⟨⟨location, disk⟩, hc⟩ := ho directory json hd
    rw [← (source.feed_keeps h).disk] at hc
    let j : Job Catalog FileSink := ⟨Catalog.resolver, i.renderer, FileSink.sink⟩
    let sink := FileSink.inDirectory directory (fileName source i.renderer)
    have hacquire : FileSink.acquire sink (source.feed h).2.2 = (.ok (), ⟨sink.path, some ⟨location, ""⟩⟩,
        { (source.feed h).2.2 with disk }.debug .fileSink s!"Writing to {sink.path}") := by
      simp only [FileSink.acquire, sink, FileSink.inDirectory, FileSink.closed, hc]
    obtain ⟨summary, hok⟩ := Job.run_completes (j := j) FileSink.reliable
      (Catalog.neverStops i.renderer_never_fails _) session hf
      (congrArg Prod.fst hacquire) (congrArg (fun x => x.2.1.file.isSome) hacquire)
    simp only [listToFile]
    rcases hr : j.run source session sink h with ⟨r, source', p⟩
    rw [hr] at hok
    cases hok
    exact ⟨_, rfl⟩

theorem prepare_of_source {source : Source} {paths : List String}
    (hs : (i.source h).1 = .ok (source, paths)) :
    (∃ s, (i.prepare h).1 = .ok (source, s)) ↔ ∀ path ∈ i.catalogs, h.disk.HoldsCatalog path := by
  have hkeeps := (i.source_only_logs h).keeps
  unfold prepare
  rcases hx : i.source h with ⟨r, k⟩
  rw [hx] at hs hkeeps
  cases hs
  have hdisk : (k.debug .command s!"Listing {source.tag}").disk = h.disk := hkeeps.disk
  rw [← hdisk, ← exists_session_iff paths]
  simp only
  rcases i.session paths (k.debug .command s!"Listing {source.tag}") with ⟨_ | s, l⟩ <;> simp

theorem exists_run_of_inputsGood (hi : i.InputsGood h.disk)
    (ho : ∀ path ∈ i.outputFile? h, h.disk.CanCreate path) :
    ∃ summary, (i.run h).1 = .ok summary := by
  rcases hs : (i.source h).1 with f | ⟨source, paths⟩
  · obtain ⟨path, hp, hbad⟩ := exists_bad_file_of_source_error hs
    exact absurd (hi.selection path hp) hbad
  · obtain ⟨session, hp⟩ := (prepare_of_source hs).mpr hi.catalogs
    have hkeeps := (i.prepare_only_logs h).keeps
    rw [run_eq]
    rcases hx : i.prepare h with ⟨r, k⟩
    rw [hx] at hp hkeeps
    cases hp
    obtain ⟨feed, hf⟩ := (exists_feed_iff hs hkeeps).mpr hi.selection
    have hout : ∀ directory summary, i.destination = .file directory summary →
        k.disk.CanCreate (Path.join directory (fileName source i.renderer)) := by
      intro directory summary hd
      rw [hkeeps.disk]
      exact ho _ (by simp [outputFile?, hs, hd])
    obtain ⟨⟨session', summary⟩, hw⟩ := exists_write session hf hout
    rcases hy : i.write source session k with ⟨r, l⟩
    rw [hy] at hw
    cases hw
    exact ⟨summary, by simp only [hy]⟩

end Invocation

namespace Outcome

end Outcome

end ClassListing
