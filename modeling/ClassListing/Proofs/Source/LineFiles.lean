import ClassListing.Proofs.ClassPath.Names
import ClassListing.Proofs.Source.Passes
import ClassListing.Proofs.Text.Lines

/-!
# Files of lines

A file of class names and a file of paths are read by the same rule: every text is a list of lines with their
line ends, and nothing of it is lost but the line ends. Of paths the empty ones are left out.
-/

namespace ClassListing

set_option autoImplicit false

open Text (LineEnd IsLine IsCut written)

theorem Disk.readText_of_not_utf8 {d : Disk} {path : String} {content : ByteArray}
    (h : d.read path = .ok content) (hc : String.fromUTF8? content = none) :
    d.readText path = .error .notUtf8 := by
  simp only [readText, h, hc]

theorem Source.names_ofNameFile (path : String) (h : Host) :
    ((ofNameFile path).names h).1 = readLines path h.disk := by
  simp only [names, ofNameFile, feed]
  cases readLines path h.disk with
  | error e => rfl
  | ok lines => exact congrArg Except.ok (Feed.drain_names lines _)

theorem ClassPath.ofFile_eq (path : String) (filter : Filter String) (d : Disk) :
    ofFile path filter d = (readLines path d).map fun lines => ⟨lines.filter (· ≠ ""), filter⟩ := by
  unfold ofFile
  cases readLines path d <;> rfl

/-- Lines are read literally whichever line ends they are written with, the last one also without a line end if
it is not empty. And every text is read that way: it is in one way only a list of lines with line ends
and what follows them. A file that is no text is refused. -/
theorem line_files_read_literally (path : String) (filter : Filter String) (h : Host) :
    let names := ((Source.ofNameFile path).names h).1
    let classPath := ClassPath.ofFile path filter h.disk
    (∀ (ls : List (String × LineEnd)) (rest : String), (∀ l ∈ ls, IsLine l.1) → IsLine rest →
      h.disk.read path = .ok (written ls rest).toUTF8 →
      let lines := ls.map Prod.fst ++ if rest = "" then [] else [rest]
      names = .ok lines ∧ classPath = .ok ⟨lines.filter (· ≠ ""), filter⟩) ∧
    (∀ text : String, h.disk.read path = .ok text.toUTF8 → ∃ ls rest, IsCut text ls rest ∧
      (∀ ls' rest', IsCut text ls' rest' → ls' = ls ∧ rest' = rest) ∧
      let lines := ls.map Prod.fst ++ if rest = "" then [] else [rest]
      names = .ok lines ∧ classPath = .ok ⟨lines.filter (· ≠ ""), filter⟩) ∧
    ∀ content, h.disk.read path = .ok content → String.fromUTF8? content = none →
      names = .error (.source path .notUtf8) ∧ classPath = .error (.source path .notUtf8) := by
  intro names classPath
  have hnames : names = readLines path h.disk := Source.names_ofNameFile path h
  have hpaths : classPath = _ := ClassPath.ofFile_eq path filter h.disk
  have hcut : ∀ {text ls rest}, IsCut text ls rest → h.disk.read path = .ok text.toUTF8 →
      let lines := ls.map Prod.fst ++ if rest = "" then [] else [rest]
      names = .ok lines ∧ classPath = .ok ⟨lines.filter (· ≠ ""), filter⟩ := by
    intro text ls rest hc hread
    have hlines : readLines path h.disk = .ok (Text.lines text) := by
      simp only [readLines, Disk.readText_eq_ok_iff.mpr hread]
    rw [hnames, hpaths, hlines, Text.lines_of_cut hc]
    exact ⟨rfl, rfl⟩
  refine ⟨?_, ?_, ?_⟩
  · intro ls rest hls hrest hread
    exact hcut ⟨rfl, fun l hl => (hls l hl).isEnded l.2, hrest.feed⟩ hread
  · intro text hread
    obtain ⟨ls, rest, hc⟩ := Text.exists_cut text
    exact ⟨ls, rest, hc, fun ls' rest' hc' => hc'.unique hc, hcut hc hread⟩
  · intro content hread hno
    have herror : readLines path h.disk = .error (.source path .notUtf8) := by
      simp only [readLines, Disk.readText_of_not_utf8 hread hno]
    rw [hnames, hpaths, herror]
    exact ⟨rfl, rfl⟩

end ClassListing
