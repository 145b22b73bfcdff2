import ClassListing.Proofs.ClassPath.Names
import ClassListing.Proofs.Listing.Mirror
import ClassListing.Proofs.Sink.Phases

/-!
# The same listing in a file and on standard output

One listing is written to a file and one to standard output. Step by step the file holds what the terminal has
been given, both buffers hold the same text, and nothing else changes. The names are the same as long as no
archive that is still to be scanned is the file itself.
-/

namespace ClassListing

set_option autoImplicit false

open Host (Keeps)

/-! ## Hosts with the same text in different places -/

/-- From the same beginning one host has put a text into the file at a location, and the other one has written
it to standard output. -/
structure Host.Beside (before : Host) (loc : Location) (text : String) (h k : Host) : Prop where
  content : h.disk.node? loc = some (.file text.toUTF8)
  elsewhere : before.disk.SameElsewhere loc h.disk
  stdout : h.stdout = before.stdout
  disk : k.disk = before.disk
  written : k.stdout = before.stdout ++ text

open Host (Beside)

variable {before h k h' k' : Host} {loc : Location} {text : String}

namespace Host.Beside

theorem keeps (hb : Beside before loc text h k) (hh : Keeps h h') (hk : Keeps k k') :
    Beside before loc text h' k' where
  content := by rw [hh.disk]; exact hb.content
  elsewhere := by rw [hh.disk]; exact hb.elsewhere
  stdout := hh.stdout.trans hb.stdout
  disk := hk.disk.trans hb.disk
  written := hk.stdout.trans hb.written

theorem of_keeps {start : Host} (hb : Beside before loc text h k) (hs : Keeps start before) :
    Beside start loc text h k where
  content := hb.content
  elsewhere := by rw [← hs.disk]; exact hb.elsewhere
  stdout := hb.stdout.trans hs.stdout
  disk := hb.disk.trans hs.disk
  written := by rw [← hs.stdout]; exact hb.written

/-- The same text is passed on on both sides. -/
theorem append (hb : Beside before loc text h k) (more : String) :
    Beside before loc (text ++ more) { h with disk := h.disk.append loc more }
      { k with stdout := k.stdout ++ more } := by
  have hloc := Disk.ne_nil_of_file hb.content
  rw [Disk.append_toUTF8 hb.content]
  exact {
    content := by rw [Disk.node?_put hloc, if_pos rfl]
    elsewhere := hb.elsewhere.trans (Disk.sameElsewhere_put h.disk hloc _)
    stdout := hb.stdout
    disk := hb.disk
    written := by
      show k.stdout ++ more = _
      rw [hb.written, String.append_assoc] }

end Host.Beside

/-! ## Sinks -/

/-- Both sinks are open, and the same text waits. -/
def OpenBeside (before : Host) (loc : Location) (x : FileSink × Host) (y : TerminalSink × Host) : Prop :=
  ∃ text waiting, x.1.file = some ⟨loc, waiting⟩ ∧ y.1.waiting = some waiting ∧
    Beside before loc text x.2 y.2

def ClosedBeside (before : Host) (loc : Location) (x : FileSink × Host) (y : TerminalSink × Host) :
    Prop :=
  ∃ text, Beside before loc text x.2 y.2

theorem sinks_mirror (before : Host) (loc : Location) :
    Sink.Mirrors (OpenBeside before loc) (ClosedBeside before loc) FileSink.sink TerminalSink.sink where
  write := by
    rintro ⟨⟨path, file⟩, h⟩ ⟨⟨w⟩, k⟩ more ⟨text, waiting, hfile, hterminal, hb⟩
    obtain rfl : file = some ⟨loc, waiting⟩ := hfile
    obtain rfl : w = some waiting := hterminal
    exact ⟨rfl, _, (Buffer.add waiting more).2, rfl, rfl, hb.append (Buffer.add waiting more).1⟩
  release := by
    rintro ⟨⟨path, file⟩, h⟩ ⟨⟨w⟩, k⟩ ⟨text, waiting, hfile, hterminal, hb⟩
    obtain rfl : file = some ⟨loc, waiting⟩ := hfile
    obtain rfl : w = some waiting := hterminal
    exact ⟨rfl, _, hb.append waiting⟩
  logged := by
    rintro x y component level message ⟨text, waiting, hfile, hterminal, hb⟩
    exact ⟨text, waiting, hfile, hterminal,
      hb.keeps ((Keeps.refl _).logged ..) ((Keeps.refl _).logged ..)⟩
  closed_logged := by
    rintro x y component level message ⟨text, hb⟩
    exact ⟨text, hb.keeps ((Keeps.refl _).logged ..) ((Keeps.refl _).logged ..)⟩

/-! ## Names -/

/-- With a file at the location a path does not lead to it. -/
def Disk.Avoids (d : Disk) (loc : Location) (path : String) : Prop :=
  (d.put loc (.file .empty)).locate path ≠ .ok loc

namespace ClassPath

theorem entries?_congr {d e : Disk} {path : String}
    (h : (d.find path).toOption = (e.find path).toOption) : entries? d path = entries? e path := by
  unfold entries?
  cases hd : d.find path <;> cases he : e.find path <;> simp_all [Except.toOption]

theorem classesAt_beside (hd : before.disk.node? loc ≠ some .directory)
    (hb : Beside before loc text h k) {path : String} (hp : before.disk.Avoids loc path) :
    classesAt h.disk path = classesAt k.disk path := by
  have hloc := Disk.ne_nil_of_file hb.content
  have hfile : h.disk.HasFile loc := ⟨_, hb.content⟩
  have hput := Disk.sameElsewhere_put before.disk hloc (.file .empty)
  have hlocate := Disk.locate_ne_of_hasFile (hput.symm.trans hb.elsewhere)
    (Disk.hasFile_put before.disk hloc .empty) hfile hp
  have hfind := Disk.find_elsewhere hb.elsewhere hd hfile hlocate
  rw [classesAt, classesAt, hb.disk, entries?_congr hfind]

/-- The paths that are still to be scanned. -/
theorem supply_beside (hd : before.disk.node? loc ≠ some .directory) (keeps : Filter String) :
    (supply keeps).Image (fun p q => before.disk.Avoids loc p ∧ p = q) Eq
      (fun h k => ∃ text, Beside before loc text h k) (supply keeps) where
  build := by
    rintro path _ h k ⟨hp, rfl⟩ ⟨text, hb⟩
    obtain ⟨hnames, hasks⟩ := scan_eq keeps path h
    obtain ⟨hnames', hasks'⟩ := scan_eq keeps path k
    have hsame : (scan keeps path h).1 = (scan keeps path k).1 := by
      rw [hnames, hnames', classesAt_beside hd hb hp]
    exact ⟨congrArg Editable.ofList hsame, text, hb.keeps hasks.toKeeps hasks'.toKeeps⟩
  ended hb := hb
  bound _ := rfl

theorem image_and_eq_iff {A : String → Prop} {s t : Pass} :
    Sequential.Image (fun p q => A p ∧ p = q) Eq s t ↔ (∀ p ∈ s.pending, A p) ∧ s = t := by
  constructor
  · rintro ⟨hp, hc, hr, hl⟩
    obtain ⟨hall, heq⟩ := (List.forall₂_and_left _ _).mp hp
    exact ⟨hall, image_eq_iff.mp ⟨heq, hc, hr, hl⟩⟩
  · rintro ⟨hall, rfl⟩
    obtain ⟨hp, hc, hr, hl⟩ := image_eq_iff.mpr (rfl : s = s)
    exact ⟨(List.forall₂_and_left _ _).mpr ⟨hall, hp⟩, hc, hr, hl⟩

end ClassPath

/-- No path that is still to be scanned leads to the file. -/
def Feed.Avoids (d : Disk) (loc : Location) : Feed → Prop
  | names _ => True
  | pass _ p => ∀ path ∈ p.pending, d.Avoids loc path

theorem Feed.mirrors_beside (hd : before.disk.node? loc ≠ some .directory) :
    Feed.Mirrors (OpenBeside before loc) (Feed.Avoids before.disk loc) := by
  rintro f ⟨s, h⟩ ⟨t, k⟩ hf ⟨text, waiting, hfile, hterminal, hb⟩
  cases f with
  | names rest => cases rest <;> exact ⟨rfl, rfl, trivial, text, waiting, hfile, hterminal, hb⟩
  | pass keeps p =>
    obtain ⟨hr, hs, text', hb'⟩ := Sequential.next_image (ClassPath.scanned_image _)
      (ClassPath.supply_beside hd keeps) (ClassPath.image_and_eq_iff.mpr ⟨hf, (rfl : p = p)⟩) ⟨text, hb⟩
    obtain ⟨hall, heq⟩ := ClassPath.image_and_eq_iff.mp hs
    exact ⟨(hr.trans (congrFun Option.map_id _)).symm, congrArg (Feed.pass keeps) heq, hall,
      text', waiting, hfile, hterminal, hb'⟩

/-! ## The listing -/

/-- If the names are there and the file can be made, the file gets what the terminal gets. -/
theorem Job.run_beside {ρ : Type} (resolver : Resolver ρ) (f : Formatter) {source : Source}
    (session : Session ρ) (hk : Host.Agree h k) {feed : Feed} (hf : (source.feed h).1 = .ok feed)
    {path : String} (hc : h.disk.create path = .ok (loc, h.disk.put loc (.file .empty)))
    (hloc : loc ≠ []) (hd : h.disk.node? loc ≠ some .directory) (hp : feed.Avoids h.disk loc) :
    let r := run ⟨resolver, f, FileSink.sink⟩ source session (.closed path) h
    let r' := run ⟨resolver, f, TerminalSink.sink⟩ source session .closed k
    r.1 = r'.1 ∧ r.2.2.session = r'.2.2.session ∧
      ∃ text, Beside h loc text r.2.2.host r'.2.2.host := by
  obtain ⟨hfeed, htag, hw⟩ := source.feed_agrees hk
  have hkeeps := source.feed_keeps h
  simp only [run]
  rcases hx : source.feed h with ⟨r, source', w⟩
  rcases hy : source.feed k with ⟨r', source'', w'⟩
  rw [hx, hy] at hfeed htag hw
  rw [hx] at hkeeps hf
  cases hfeed
  cases htag
  cases hf
  have hcreate : w.disk.create path = .ok (loc, h.disk.put loc (.file .empty)) := by
    rw [hkeeps.disk]
    exact hc
  have hacquire : FileSink.sink.acquire (.closed path) w = _ := FileSink.acquire_of_create hcreate
  have hterminal : TerminalSink.sink.acquire .closed w' = (.ok (), ⟨some ""⟩, w') := rfl
  have hbegin : Beside h loc "" ({ w with disk := h.disk.put loc (.file .empty) }.debug .fileSink
      s!"Writing to {path}") w' := {
    content := (Disk.node?_put hloc _ loc).trans (if_pos rfl)
    elsewhere := Disk.sameElsewhere_put h.disk hloc _
    stdout := hkeeps.stdout
    disk := hw.disk.symm.trans hkeeps.disk
    written := by rw [← hw.stdout, hkeeps.stdout, String.append_empty] }
  simp only [hacquire, hterminal]
  obtain ⟨hresult, hsession, -, text, hb⟩ := whileOpen_mirrors (r := resolver) (f := f)
    (sinks_mirror h loc) (Feed.mirrors_beside hd) source'.tag hp
    (p := ⟨session, ⟨path, some ⟨loc, ""⟩⟩, .zero, _⟩) (q := ⟨session, ⟨some ""⟩, .zero, w'⟩)
    ⟨rfl, rfl, "", "", rfl, rfl, hbegin⟩
  exact ⟨hresult, hsession, text, hb⟩

end ClassListing
