import ClassListing.Proofs.ClassPath.Paths
import ClassListing.Proofs.CommandLine.Inputs
import ClassListing.Proofs.CommandLine.Options
import ClassListing.Proofs.Listing.Mirror

/-!
# Two ways to list the same archives

The boot class path can be given in the environment, and its listing then has the detailed format and the
visible members. The same archives in a class path file, with this format and this filter asked for, give the
same outcome: a run depends on the source, the style, the catalogs and the destination only.
-/

namespace ClassListing

set_option autoImplicit false

open Host (Agree AgreeWith)

variable {h h' : Host}

namespace Invocation

variable {i i' : Invocation}

/-! ## Runs on hosts that agree -/

theorem write_agrees (hr : i.renderer = i'.renderer) (hd : i.destination = i'.destination)
    (source : Source) (session : Session Catalog) (hh : Agree h h') :
    AgreeWith (i.write source session h) (i'.write source session h') := by
  unfold write
  rw [← hr, ← hd]
  cases i.destination with
  | terminal =>
    have hrun := Job.run_agrees (j := ⟨Catalog.resolver, i.renderer, TerminalSink.sink⟩)
      TerminalSink.sink_agrees source session TerminalSink.closed hh
    simp only
    generalize Job.run _ source session _ h = x at hrun
    generalize Job.run _ source session _ h' = y at hrun
    obtain ⟨r, _, p⟩ := x
    obtain ⟨_, _, q⟩ := y
    obtain ⟨rfl, hsession, -, -, hhost⟩ := hrun
    cases r with
    | error e => exact ⟨rfl, hhost⟩
    | ok summary => exact ⟨congrArg (fun s => Except.ok (s, summary)) hsession, hhost⟩
  | file directory json =>
    have hrun := Job.run_agrees (j := ⟨Catalog.resolver, i.renderer, FileSink.sink⟩)
      FileSink.sink_agrees source session
      (FileSink.inDirectory directory (fileName source i.renderer)) hh
    simp only [listToFile]
    generalize Job.run _ source session _ h = x at hrun
    generalize Job.run _ source session _ h' = y at hrun
    obtain ⟨r, _, p⟩ := x
    obtain ⟨_, _, q⟩ := y
    obtain ⟨rfl, hsession, -, -, hhost⟩ := hrun
    cases r with
    | error e => exact ⟨rfl, hhost⟩
    | ok summary =>
      exact ⟨congrArg (fun s => Except.ok (s, summary)) hsession, hhost.logged_both ..⟩

theorem session_agrees (hc : i.catalogs = i'.catalogs) (paths : List String) (hh : Agree h h') :
    AgreeWith (i.session paths h) (i'.session paths h') where
  result := by
    rw [session_fst, session_fst, ← hc, Catalog.ofFiles, Catalog.ofFiles,
      Catalog.loadFiles_of_disk hh.disk]
  host := ((i.session_only_logs paths h).symm.trans hh).trans (i'.session_only_logs paths h')

theorem prepare_agrees (hs : (i.source h).1 = (i'.source h').1) (hc : i.catalogs = i'.catalogs)
    (hh : Agree h h') : AgreeWith (i.prepare h) (i'.prepare h') where
  result := by
    have hlogged := ((i.source_only_logs h).symm.trans hh).trans (i'.source_only_logs h')
    unfold prepare
    generalize i.source h = x at hs hlogged
    generalize i'.source h' = y at hs hlogged
    obtain ⟨r, k⟩ := x
    obtain ⟨_, k'⟩ := y
    obtain rfl := hs
    cases r with
    | error f => rfl
    | ok selected =>
      obtain ⟨source, paths⟩ := selected
      have hlisting : Agree (k.debug .command s!"Listing {source.tag}")
          (k'.debug .command s!"Listing {source.tag}") := hlogged.logged_both ..
      have hsession := (session_agrees hc paths hlisting).result
      simp only
      generalize i.session paths (k.debug .command s!"Listing {source.tag}") = x at hsession
      generalize i'.session paths (k'.debug .command s!"Listing {source.tag}") = y at hsession
      obtain ⟨r, l⟩ := x
      obtain ⟨_, l'⟩ := y
      obtain rfl := hsession
      cases r <;> rfl
  host := ((i.prepare_only_logs h).symm.trans hh).trans (i'.prepare_only_logs h')

theorem report_agrees (hd : i.destination = i'.destination) (summary : Summary) (hh : Agree h h') :
    Agree (i.report summary h) (i'.report summary h') := by
  unfold report
  rw [← hd]
  split
  · exact ⟨hh.disk, congrArg (· ++ _) hh.stdout, hh.asked⟩
  · exact hh

/-- Runs from the same source, in the same style, with the same catalogs and to the same destination. -/
theorem run_agrees (hs : (i.source h).1 = (i'.source h').1) (hstyle : i.style = i'.style)
    (hc : i.catalogs = i'.catalogs) (hd : i.destination = i'.destination) (hh : Agree h h') :
    AgreeWith (i.run h) (i'.run h') := by
  have hr : i.renderer = i'.renderer := by rw [renderer, renderer, hstyle]
  have hprepare := prepare_agrees hs hc hh
  rw [run_eq, run_eq]
  generalize i.prepare h = x at hprepare
  generalize i'.prepare h' = y at hprepare
  obtain ⟨r, k⟩ := x
  obtain ⟨_, k'⟩ := y
  obtain ⟨rfl, hk⟩ := hprepare
  cases r with
  | error f => exact ⟨rfl, hk⟩
  | ok prepared =>
    obtain ⟨source, session⟩ := prepared
    have hwrite := write_agrees hr hd source session hk
    simp only
    generalize i.write source session k = x at hwrite
    generalize i'.write source session k' = y at hwrite
    obtain ⟨r, l⟩ := x
    obtain ⟨_, l'⟩ := y
    obtain ⟨rfl, hl⟩ := hwrite
    cases r with
    | error f => exact ⟨rfl, hl⟩
    | ok written => exact ⟨rfl, report_agrees hd written.2 (hl.logged_both ..)⟩

theorem outputFile?_eq (hs : (i.source h).1 = (i'.source h').1) (hstyle : i.style = i'.style)
    (hd : i.destination = i'.destination) : i.outputFile? h = i'.outputFile? h' := by
  have hr : i.renderer = i'.renderer := by rw [renderer, renderer, hstyle]
  rw [outputFile?, outputFile?, hs, hd, hr]

/-! ## Both ways -/

theorem source_of_boot (hi : i.selection = .boot) :
    (i.source h).1 = .ok (.classPath ⟨ClassPath.bootPaths h, nameFilter false⟩,
      ClassPath.bootPaths h) := by
  unfold source
  rw [hi]
  rfl

theorem source_of_file {file : String} {platformOnly : Bool} {c : ClassPath}
    (hi : i.selection = .classPathFile file platformOnly)
    (hc : ClassPath.ofFile file (nameFilter platformOnly) h.disk = .ok c) :
    (i.source h).1 = .ok (.classPath c, c.paths) := by
  unfold source
  rw [hi]
  simp only [hc]

end Invocation

/-- Whatever format and filter are given with the boot class path, and whatever else is in the environment,
the outcome is that of a detailed listing of visible members from a file with the same paths. -/
theorem Outcome.boot_listing_eq_file_listing {args args' : List String} {i i' : Invocation}
    (ha : Request.ofArguments args = .ok (.listing i))
    (ha' : Request.ofArguments args' = .ok (.listing i'))
    (hboot : "--boot" ∈ args ∨ "-boot" ∈ args) {paths : List String}
    (hpaths : ∀ path ∈ paths, path ≠ "" ∧ ':' ∉ path.toList ∧ Text.IsLine path)
    (hv : h.var? ClassPath.bootVariable = some (":".intercalate paths))
    {file : String} (hfile : i'.selection = .classPathFile file false)
    (hformat : i'.format = .detailedCsv) (hfilter : i'.filter = .visible)
    {ls : List (String × Text.LineEnd)} {rest : String}
    (htext : h.disk.readText file = .ok (Text.written ls rest))
    (hlines : (ls.map Prod.fst ++ [rest]).filter (· ≠ "") = paths)
    (hc : i.catalogs = i'.catalogs) (hd : i.destination = i'.destination) (hh : Agree h h') :
    let o := ofArguments args h
    let o' := ofArguments args' h'
    o.code = o'.code ∧ i.outputFile? h = i'.outputFile? h' ∧ o.disk = o'.disk ∧
      o.stdout = o'.stdout := by
  intro o o'
  have hsel := Request.selection_of_boot ha hboot
  have hstyle : i.style = i'.style := by
    simp [Invocation.style, hsel, hfile, hformat, hfilter]
  -- a line is blank or one of the paths
  have hline : ∀ line ∈ ls.map Prod.fst ++ [rest], Text.IsLine line := by
    intro line hm
    by_cases he : line = ""
    · subst he
      decide
    · have hp : line ∈ paths := by
        rw [← hlines]
        exact List.mem_filter.mpr ⟨hm, decide_eq_true he⟩
      exact (hpaths line hp).2.2
  have hls : ∀ l ∈ ls, Text.IsLine l.1 := fun l hl =>
    hline l.1 (List.mem_append_left _ (List.mem_map_of_mem hl))
  have hrest : Text.IsLine rest := hline rest (List.mem_append_right _ (.head _))
  have hs : (i.source h).1 = (i'.source h').1 := by
    have hread := ClassPath.ofFile_of_written (Invocation.nameFilter false) (hh.disk ▸ htext) hls
      hrest.feed
    rw [Invocation.source_of_boot hsel, Invocation.source_of_file hfile hread, hlines,
      ClassPath.bootPaths_of_intercalate hv fun path hp => ⟨(hpaths path hp).1, (hpaths path hp).2.1⟩]
  have hrun := Invocation.run_agrees hs hstyle hc hd hh
  have ho : o = ofListing i h := by simp only [o, ofArguments, ha]
  have ho' : o' = ofListing i' h' := by simp only [o', ofArguments, ha']
  obtain ⟨hcode, hstdout, hdisk⟩ := ofListing_outcome i h
  obtain ⟨hcode', hstdout', hdisk'⟩ := ofListing_outcome i' h'
  refine ⟨?_, Invocation.outputFile?_eq hs hstyle hd, ?_, ?_⟩
  · rw [ho, ho', hcode, hcode', hrun.result]
  · rw [ho, ho', hdisk, hdisk', hrun.host.disk]
  · rw [ho, ho', hstdout, hstdout', hrun.host.stdout]

/-- Blank lines, both line ends, no last line end, a format that does not count, and a Java installation that
is not looked at. -/
theorem Outcome.boot_listing_of_two_archives :
    let disk : Disk := ⟨[(["paths.txt"], .file "\na.jar\r\n\nb.jar".toUTF8),
      (["catalog.json"], .file "[]".toUTF8)], []⟩
    let h := Host.ofDisk disk
      [(ClassPath.homeVariable, "/jdk"), (ClassPath.bootVariable, "a.jar:b.jar")]
    let o := ofArguments ["-boot", "--format", "csv", "--catalog", "catalog.json", "--json"] h
    let o' := ofArguments ["--classpath-file", "paths.txt", "--format", "csv-detail", "--catalog",
      "catalog.json", "--json"] (Host.ofDisk disk [])
    o.code = o'.code ∧ o.disk = o'.disk ∧ o.stdout = o'.stdout := by
  intro disk h
  let i : Invocation :=
    ⟨.boot, .csv, .visible, ["catalog.json"], .file "." true, false⟩
  let i' : Invocation :=
    ⟨.classPathFile "paths.txt" false, .detailedCsv, .visible, ["catalog.json"], .file "." true, false⟩
  let ls : List (String × Text.LineEnd) := [("", .feed), ("a.jar", .returnFeed), ("", .feed)]
  have ha : Request.ofArguments ["-boot", "--format", "csv", "--catalog", "catalog.json", "--json"] =
      .ok (.listing i) := by decide +kernel
  have ha' : Request.ofArguments ["--classpath-file", "paths.txt", "--format", "csv-detail",
      "--catalog", "catalog.json", "--json"] = .ok (.listing i') := by decide +kernel
  have hv : h.var? ClassPath.bootVariable = some (":".intercalate ["a.jar", "b.jar"]) := by
    decide +kernel
  have hpaths : ∀ path ∈ ["a.jar", "b.jar"], path ≠ "" ∧ ':' ∉ path.toList ∧ Text.IsLine path := by
    decide +kernel
  have htext : h.disk.readText "paths.txt" = .ok (Text.written ls "b.jar") := by decide +kernel
  have hlines : (ls.map Prod.fst ++ ["b.jar"]).filter (· ≠ "") = ["a.jar", "b.jar"] := by decide
  have hh : Agree h (Host.ofDisk disk []) := ⟨rfl, rfl, rfl⟩
  obtain ⟨hcode, -, hwritten⟩ := boot_listing_eq_file_listing ha ha' (.inr (.head _)) hpaths hv rfl rfl
    rfl htext hlines rfl rfl hh
  exact ⟨hcode, hwritten⟩

end ClassListing
