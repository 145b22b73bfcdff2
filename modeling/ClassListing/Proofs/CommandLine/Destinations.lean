import ClassListing.Proofs.CommandLine.Inputs
import ClassListing.Proofs.CommandLine.Terminal
import ClassListing.Proofs.Disk.Creating
import ClassListing.Proofs.Listing.Destination

/-!
# Where a listing goes

The listing on standard output and the one in a file are the same bytes. The file is called after the source
and the style, stands in the working directory or in the one that is asked for, and is the only thing
on the disk that changes.
-/

namespace ClassListing

set_option autoImplicit false

open Host (Keeps Beside)

/-! ## The name of the file -/

/-- What a listing is called by where its names come from. -/
def Selection.tag : Selection → String
  | classes _ => "LIST"
  | nameFile _ => "FILE_C"
  | boot => "CP-ALL"
  | classPathFile _ platformOnly => if platformOnly then "CP-JDK" else "CP-ALL"

theorem Selection.tag_isName (s : Selection) : Path.IsName s.tag := by
  have hall : ∀ tag ∈ ["LIST", "FILE_C", "CP-ALL", "CP-JDK"], tag ≠ "" ∧ '/' ∉ tag.toList := by
    decide +kernel
  have hmem : s.tag ∈ ["LIST", "FILE_C", "CP-ALL", "CP-JDK"] := by
    cases s with
    | classPathFile path platformOnly => cases platformOnly <;> simp [tag]
    | _ => simp [tag]
  exact ⟨(hall _ hmem).1, (hall _ hmem).2⟩

namespace Invocation

/-- The name of the output file: the tag, the suffix of the renderer if there is one, and the extension. -/
def listingName (i : Invocation) : String :=
  i.selection.tag ++ (if i.renderer.suffix = "" then "" else "_" ++ i.renderer.suffix) ++
    i.renderer.extension

def classPath (i : Invocation) (h : Host) : List String :=
  match (i.source h).1 with
  | .ok (_, paths) => paths
  | .error _ => []

variable {i : Invocation} {h k : Host} {source : Source} {paths : List String}

/-- What is selected: names, a file of names, or the archives of the class path. -/
theorem source_cases (hs : (i.source h).1 = .ok (source, paths)) :
    source.tag = i.selection.tag ∧
      ∀ c, source = .classPath c → c.paths = paths := by
  unfold Invocation.source at hs
  cases hsel : i.selection with
  | classes names =>
    simp only [hsel, Except.ok.injEq, Prod.mk.injEq] at hs
    obtain ⟨rfl, rfl⟩ := hs
    exact ⟨rfl, nofun⟩
  | nameFile path =>
    simp only [hsel, Except.ok.injEq, Prod.mk.injEq] at hs
    obtain ⟨rfl, rfl⟩ := hs
    exact ⟨rfl, nofun⟩
  | boot =>
    simp only [hsel, Except.ok.injEq, Prod.mk.injEq] at hs
    obtain ⟨rfl, rfl⟩ := hs
    exact ⟨rfl, by rintro c ⟨⟩; rfl⟩
  | classPathFile path platformOnly =>
    simp only [hsel, ClassPath.ofFile] at hs
    cases hl : readLines path h.disk with
    | error e => simp [hl] at hs
    | ok lines =>
      simp only [hl, Except.ok.injEq, Prod.mk.injEq] at hs
      obtain ⟨rfl, rfl⟩ := hs
      exact ⟨by cases platformOnly <;> rfl, by rintro c ⟨⟩; rfl⟩

theorem fileName_eq (hs : (i.source h).1 = .ok (source, paths)) :
    fileName source i.renderer = i.listingName := by
  rw [fileName, listingName, (source_cases hs).1]
  split
  · rw [String.append_empty]
  · simp only [String.append_assoc]

theorem listingName_isName (i : Invocation) : Path.IsName i.listingName := by
  have hrenderer : '/' ∉ i.renderer.suffix.toList ∧ '/' ∉ i.renderer.extension.toList := by
    unfold renderer
    generalize i.style = style
    obtain ⟨f, g⟩ := style
    cases f <;> cases g <;> decide +kernel
  have htag := i.selection.tag_isName
  constructor
  · intro h
    have hempty : i.selection.tag = "" := by
      simp only [listingName, String.append_assoc, String.append_eq_empty_iff] at h
      exact h.1
    exact htag.ne_empty hempty
  · unfold listingName
    split <;> simp [htag.no_slash, hrenderer.1, hrenderer.2]

/-! ## One run to each destination -/

theorem feed_avoids (hs : (i.source h).1 = .ok (source, paths)) {feed : Feed}
    (hf : (source.feed k).1 = .ok feed) {d : Disk} {loc : Location}
    (hp : ∀ path ∈ paths, d.Avoids loc path) : feed.Avoids d loc := by
  cases source with
  | list names =>
    cases hf
    trivial
  | nameFile path lines =>
    cases lines with
    | some lines =>
      cases hf
      trivial
    | none =>
      simp only [Source.feed] at hf
      cases hl : readLines path k.disk with
      | error e => simp [hl] at hf
      | ok lines =>
        simp only [hl, Except.ok.injEq] at hf
        rw [← hf]
        trivial
  | classPath c =>
    cases hf
    have hpaths : c.paths = paths := (source_cases hs).2 c rfl
    have hpending : (c.start k).1.pending = c.paths.tail := by
      unfold ClassPath.start Sequential.start
      cases c.paths <;> rfl
    intro path hpath
    have htail : path ∈ c.paths.tail := hpending ▸ hpath
    exact hp path (hpaths ▸ List.mem_of_mem_tail htail)

theorem write_beside (session : Session Catalog) (hd : i.destination = .terminal) {feed : Feed}
    (hf : (source.feed k).1 = .ok feed) {directory : String} {loc : Location}
    (hc : k.disk.create (Path.join directory (fileName source i.renderer)) =
      .ok (loc, k.disk.put loc (.file .empty)))
    (hloc : loc ≠ []) (hdir : k.disk.node? loc ≠ some .directory) (hp : feed.Avoids k.disk loc) :
    ∃ text, Beside k loc text
      ({ i with destination := .file directory false }.write source session k).2
      (i.write source session k).2 := by
  obtain ⟨hresult, -, text, hb⟩ := Job.run_beside Catalog.resolver i.renderer session
    (.refl k) hf hc hloc hdir hp
  refine ⟨text, ?_⟩
  have hrenderer : { i with destination := .file directory false }.renderer = i.renderer := rfl
  unfold write
  simp only [hd, hrenderer, listToFile, FileSink.inDirectory]
  generalize Job.run _ source session (FileSink.closed _) k = x at hresult hb ⊢
  generalize Job.run _ source session TerminalSink.closed k = y at hresult hb ⊢
  obtain ⟨r, _, p⟩ := x
  obtain ⟨_, _, q⟩ := y
  obtain rfl : r = _ := hresult
  cases r with
  | error e => exact hb
  | ok summary => exact hb.keeps ((Keeps.refl _).logged ..) (.refl _)

theorem report_keeps (hd : ∀ directory, i.destination ≠ .file directory true) (summary : Summary)
    (h : Host) : Keeps h (i.report summary h) := by
  unfold report
  split
  · next directory hfile => exact absurd hfile (hd directory)
  · exact .refl h

/-- What closes a run that has been written changes neither the disk nor standard output. -/
theorem run_keeps_written (hd : ∀ directory, i.destination ≠ .file directory true)
    {session : Session Catalog} (hp : i.prepare h = (.ok (source, session), k)) :
    Keeps (i.write source session k).2 (i.run h).2 := by
  rw [run_eq]
  simp only [hp]
  rcases i.write source session k with ⟨_ | ⟨session', summary⟩, l⟩
  · exact .refl l
  · exact ((Keeps.refl l).logged ..).trans (report_keeps hd summary _)

theorem run_beside (hd : i.destination = .terminal) (hi : i.InputsGood h.disk) {directory : String}
    {loc : Location}
    (hc : h.disk.create (Path.join directory i.listingName) =
      .ok (loc, h.disk.put loc (.file .empty)))
    (hloc : loc ≠ []) (hdir : h.disk.node? loc ≠ some .directory)
    (hp : ∀ path ∈ i.classPath h, h.disk.Avoids loc path) :
    ∃ text, Beside h loc text ({ i with destination := .file directory false }.run h).2
      (i.run h).2 := by
  rcases hs : (i.source h).1 with f | ⟨source, paths⟩
  · obtain ⟨path, hpath, hbad⟩ := exists_bad_file_of_source_error hs
    exact absurd (hi.selection path hpath) hbad
  · obtain ⟨session, hprepared⟩ := (prepare_of_source hs).mpr hi.catalogs
    have hkeeps := (i.prepare_only_logs h).keeps
    rcases hx : i.prepare h with ⟨r, k⟩
    rw [hx] at hprepared hkeeps
    cases hprepared
    have hx' : { i with destination := .file directory false }.prepare h =
        (.ok (source, session), k) := hx
    obtain ⟨feed, hf⟩ := (exists_feed_iff hs hkeeps).mpr hi.selection
    have hpaths : i.classPath h = paths := by simp only [classPath, hs]
    rw [← fileName_eq hs, ← hkeeps.disk] at hc
    rw [← hkeeps.disk] at hdir hp
    obtain ⟨text, hb⟩ := write_beside session hd hf hc hloc hdir (feed_avoids hs hf (hpaths ▸ hp))
    have hwritten := run_keeps_written (i := { i with destination := .file directory false })
      nofun hx'
    have hterminal := run_keeps_written (i := i) (by simp [hd]) hx
    exact ⟨text, (hb.of_keeps hkeeps).keeps hwritten hterminal⟩

theorem exist_runs (hd : i.destination = .terminal) (hi : i.InputsGood h.disk) {directory : String}
    (hc : h.disk.CanCreate (Path.join directory i.listingName)) :
    (∃ summary, (i.run h).1 = .ok summary) ∧
      ∃ summary, ({ i with destination := .file directory false }.run h).1 = .ok summary := by
  constructor
  · apply exists_run_of_inputsGood hi
    intro path hpath
    unfold outputFile? at hpath
    rw [hd] at hpath
    split at hpath
    · contradiction
    · cases hpath
  · have hi' : { i with destination := .file directory false }.InputsGood h.disk :=
      ⟨hi.catalogs, hi.selection⟩
    apply exists_run_of_inputsGood hi'
    intro path hpath
    have hsource : { i with destination := .file directory false }.source h = i.source h := rfl
    have hrenderer : { i with destination := .file directory false }.renderer = i.renderer := rfl
    simp only [outputFile?, hsource, hrenderer] at hpath
    cases hs : (i.source h).1 with
    | error f => simp [hs] at hpath
    | ok selected =>
      obtain ⟨source, paths⟩ := selected
      simp only [hs, Option.mem_def, Option.some.injEq] at hpath
      rw [← hpath, fileName_eq hs]
      exact hc

end Invocation

namespace Outcome

/-- The file holds the bytes that are written to standard output without it, and all else is as it was. -/
structure SameListing (h : Host) (loc : Location) (terminal file : Outcome) : Prop where
  codes : terminal.code = 0 ∧ file.code = 0
  bytes : ∃ text, terminal.stdout = h.stdout ++ text ∧
    file.disk.node? loc = some (.file text.toUTF8)
  elsewhere : ∀ l, l ≠ loc → file.disk.node? l = h.disk.node? l
  terminal_disk : terminal.disk = h.disk
  file_stdout : file.stdout = h.stdout

/-- A command line for standard output is one for a file in the working directory without its option. That
file, or the one in a directory that is asked for instead, has the name of the listing and the bytes that
standard output gets, whatever was in it before, if it is none of the archives. -/
theorem terminal_listing_eq_file_listing {args : List String} {i : Invocation}
    (ha : Request.ofArguments args = .ok (.listing i)) (hstdout : "--stdout" ∈ args) {h : Host}
    (hi : i.InputsGood h.disk) :
    Request.ofArguments (args.erase "--stdout") =
        .ok (.listing { i with destination := .file "." false }) ∧
      ∀ args' directory,
        Request.ofArguments args' =
          .ok (.listing { i with destination := .file directory false }) →
        ∀ loc created, h.disk.create (Path.join directory i.listingName) = .ok (loc, created) →
        (∀ path ∈ i.classPath h, created.locate path ≠ .ok loc) →
        SameListing h loc (ofArguments args h) (ofArguments args' h) ∧
          ∃ place, h.disk.locate directory = .ok place ∧
            (directory = "." → place = h.disk.workingDirectory) ∧ loc = place ++ [i.listingName] := by
  obtain ⟨hd, herase⟩ := Request.ofArguments_erase_stdout ha hstdout
  refine ⟨herase, ?_⟩
  intro args' directory ha' loc created hc hp
  have hne : directory ≠ "" := Request.directory_ne_empty ha' rfl
  obtain ⟨place, hlocate, -, hloc, hdir, hput⟩ := Disk.create_join hne i.listingName_isName hc
  subst hput
  have hnil : loc ≠ [] := by simp [hloc]
  obtain ⟨text, hb⟩ := Invocation.run_beside hd hi hc hnil hdir hp
  obtain ⟨⟨summary, hr⟩, summary', hr'⟩ := Invocation.exist_runs hd hi ⟨_, hc⟩
  have ho : ofArguments args h = ofListing i h := by simp only [ofArguments, ha]
  have ho' : ofArguments args' h = ofListing { i with destination := .file directory false } h := by
    simp only [ofArguments, ha']
  obtain ⟨hcode, hstdout, hdisk⟩ := ofListing_outcome i h
  obtain ⟨hcode', hstdout', hdisk'⟩ := ofListing_outcome { i with destination := .file directory false } h
  rw [hr] at hcode
  rw [hr'] at hcode'
  rw [ho, ho']
  refine ⟨⟨⟨hcode, hcode'⟩, ⟨text, ?_, ?_⟩, ?_, ?_, ?_⟩, place, hlocate, ?_, hloc⟩
  · rw [hstdout, hb.written]
  · rw [hdisk', hb.content]
  · intro l hl
    rw [hdisk', hb.elsewhere.node l hl]
  · rw [hdisk, hb.disk]
  · rw [hstdout', hb.stdout]
  · rintro rfl
    exact Disk.eq_workingDirectory_of_locate hlocate

/-- Only a header is listed, for nothing is on the class path. A longer file stood where it is written. -/
theorem header_replaces_longer_file :
    let disk : Disk := ⟨[(["paths.txt"], .file "missing.jar\nout\n".toUTF8), (["out"], .directory),
      (["out", "CP-ALL_VISIBLE.csv"], .file "a listing that is longer than a header\n".toUTF8)], []⟩
    let h := Host.ofDisk disk []
    let terminal := ofArguments ["--classpath-file", "paths.txt", "--stdout", "--format", "csv"] h
    let file := ofArguments
      ["--classpath-file", "paths.txt", "--output-dir", "out", "--format", "csv"] h
    SameListing h ["out", "CP-ALL_VISIBLE.csv"] terminal file := by
  intro disk h
  let i : Invocation := ⟨.classPathFile "paths.txt" false, .csv, .visible, [], .terminal, false⟩
  have ha : Request.ofArguments ["--classpath-file", "paths.txt", "--stdout", "--format", "csv"] =
      .ok (.listing i) := by decide +kernel
  have ha' : Request.ofArguments ["--classpath-file", "paths.txt", "--output-dir", "out", "--format",
      "csv"] = .ok (.listing { i with destination := .file "out" false }) := by decide +kernel
  have hi : i.InputsGood h.disk := by decide +kernel
  have htarget : disk.target (Path.join "out" i.listingName) = .ok ["out", "CP-ALL_VISIBLE.csv"] := by
    decide +kernel
  have hc : h.disk.create (Path.join "out" i.listingName) = .ok (["out", "CP-ALL_VISIBLE.csv"],
      disk.put ["out", "CP-ALL_VISIBLE.csv"] (.file .empty)) := congrArg _ htarget
  have hp : ∀ path ∈ i.classPath h,
      (disk.put ["out", "CP-ALL_VISIBLE.csv"] (.file .empty)).locate path ≠
        .ok ["out", "CP-ALL_VISIBLE.csv"] := by
    decide +kernel
  exact ((terminal_listing_eq_file_listing ha (by decide) hi).2 _ _ ha' _ _ hc hp).1

end Outcome

end ClassListing
