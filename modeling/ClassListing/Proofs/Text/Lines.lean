import ClassListing.Text.Lines

/-!
# Lines written with any line ends

Every text is in exactly one way a list of lines with their line ends and what follows the last of them
(`exists_cut`, `IsCut.unique`), and those are the lines that are read (`lines_of_cut`). So lines are read
back whichever line ends they were written with, as long as none of them holds a line feed or ends
in a carriage return.
-/

namespace ClassListing.Text

set_option autoImplicit false

inductive LineEnd where
  | feed
  | returnFeed
  deriving DecidableEq, Repr

def LineEnd.text : LineEnd → List Char
  | feed => ['\n']
  | returnFeed => ['\r', '\n']

/-- Nothing in the line can be taken for a line end or a part of one. -/
structure IsLine (line : String) : Prop where
  feed : '\n' ∉ line.toList
  last : line.toList.getLast? ≠ some '\r'

instance (line : String) : Decidable (IsLine line) :=
  decidable_of_iff ('\n' ∉ line.toList ∧ line.toList.getLast? ≠ some '\r')
    ⟨fun h => ⟨h.1, h.2⟩, fun h => ⟨h.1, h.2⟩⟩

def written (ls : List (String × LineEnd)) (rest : String) : String :=
  String.ofList (ls.flatMap (fun l => l.1.toList ++ l.2.text) ++ rest.toList)

/-! ## One line -/

/-- The line end is not a part of the line, and no part of the line belongs to the line end. -/
structure IsEnded (l : String × LineEnd) : Prop where
  feed : '\n' ∉ l.1.toList
  last : l.2 = .feed → l.1.toList.getLast? ≠ some '\r'

theorem IsLine.isEnded {line : String} (h : IsLine line) (e : LineEnd) : IsEnded (line, e) :=
  ⟨h.feed, fun _ => h.last⟩

/-- The part of a line end before its line feed. -/
def LineEnd.before : LineEnd → List Char
  | feed => []
  | returnFeed => ['\r']

theorem LineEnd.text_eq (e : LineEnd) : e.text = e.before ++ ['\n'] := by
  cases e <;> rfl

theorem IsEnded.feed_before {l : String × LineEnd} (h : IsEnded l) :
    '\n' ∉ l.1.toList ++ l.2.before := by
  obtain ⟨line, e⟩ := l
  cases e <;> simpa [LineEnd.before] using h.feed

/-- What stands before a line feed tells the line from the line end. -/
theorem IsEnded.eq_of_append {l m : String × LineEnd} (hl : IsEnded l) (hm : IsEnded m)
    (h : l.1.toList ++ l.2.before = m.1.toList ++ m.2.before) : l = m := by
  obtain ⟨line, e⟩ := l
  obtain ⟨line', e'⟩ := m
  cases e with
  | feed =>
    cases e' with
    | feed => simpa [LineEnd.before, String.toList_inj] using h
    | returnFeed =>
      have hline : line.toList = line'.toList ++ ['\r'] := (List.append_nil _).symm.trans h
      exact absurd (hline ▸ List.getLast?_concat) (hl.last rfl)
  | returnFeed =>
    cases e' with
    | feed =>
      have hline : line'.toList = line.toList ++ ['\r'] := (List.append_nil _).symm.trans h.symm
      exact absurd (hline ▸ List.getLast?_concat) (hm.last rfl)
    | returnFeed => simpa [LineEnd.before, String.toList_inj] using h

/-- Whatever stands before a line feed is a line with the beginning of its line end. -/
theorem exists_isEnded {piece : List Char} (h : '\n' ∉ piece) :
    ∃ l : String × LineEnd, IsEnded l ∧ l.1.toList ++ l.2.before = piece := by
  by_cases hlast : piece.getLast? = some '\r'
  · obtain ⟨line, rfl⟩ := List.getLast?_eq_some_iff.mp hlast
    exact ⟨(String.ofList line, .returnFeed), ⟨by simp_all, nofun⟩, by simp [LineEnd.before]⟩
  · exact ⟨(String.ofList piece, .feed), ⟨by simpa using h, fun _ => by simpa using hlast⟩,
      by simp [LineEnd.before]⟩

theorem dropReturn_of_last {line : List Char} (h : line.getLast? ≠ some '\r') :
    dropReturn line = line := if_neg h

theorem dropReturn_append_return (line : List Char) : dropReturn (line ++ ['\r']) = line := by
  rw [dropReturn, if_pos List.getLast?_concat, List.dropLast_concat]

theorem IsEnded.dropReturn_eq {l : String × LineEnd} (h : IsEnded l) :
    dropReturn (l.1.toList ++ l.2.before) = l.1.toList := by
  obtain ⟨line, e⟩ := l
  cases e with
  | feed => exact (congrArg dropReturn (List.append_nil _)).trans (dropReturn_of_last (h.last rfl))
  | returnFeed => exact dropReturn_append_return line.toList

/-! ## All lines -/

theorem linesOfPieces_cons (line : List Char) {pieces : List (List Char)} (h : pieces ≠ []) :
    linesOfPieces (line :: pieces) = dropReturn line :: linesOfPieces pieces := by
  cases pieces with
  | nil => exact absurd rfl h
  | cons next pieces => rfl

/-- The text is written as these lines with their line ends, and the rest follows. -/
structure IsCut (text : String) (ls : List (String × LineEnd)) (rest : String) : Prop where
  whole : text = written ls rest
  ended : ∀ l ∈ ls, IsEnded l
  feed : '\n' ∉ rest.toList

variable {text rest : String} {ls : List (String × LineEnd)}

theorem toList_written_cons (l : String × LineEnd) (ls : List (String × LineEnd)) (rest : String) :
    (written (l :: ls) rest).toList =
      (l.1.toList ++ l.2.before) ++ '\n' :: (written ls rest).toList := by
  simp [written, LineEnd.text_eq]

theorem feed_mem_written_cons (l : String × LineEnd) (ls : List (String × LineEnd)) (rest : String) :
    '\n' ∈ (written (l :: ls) rest).toList := by
  rw [toList_written_cons]
  simp

theorem exists_cut (text : String) : ∃ ls rest, IsCut text ls rest := by
  by_cases h : '\n' ∈ text.toList
  · obtain ⟨piece, tail, htext, hpiece⟩ := List.eq_append_cons_of_mem h
    obtain ⟨l, hl, hp⟩ := exists_isEnded hpiece
    obtain ⟨ls, rest, hrest⟩ := exists_cut (String.ofList tail)
    refine ⟨l :: ls, rest, ?_, List.forall_mem_cons.mpr ⟨hl, hrest.ended⟩, hrest.feed⟩
    rw [← String.toList_inj, toList_written_cons, hp, htext, ← hrest.whole, String.toList_ofList]
  · exact ⟨[], text, by simp [written], by simp, h⟩
termination_by text.length
decreasing_by
  rw [← String.length_toList (s := text), htext]
  simp
  omega

theorem IsCut.unique {ls' : List (String × LineEnd)} {rest' : String} (h : IsCut text ls rest)
    (h' : IsCut text ls' rest') : ls = ls' ∧ rest = rest' := by
  obtain ⟨rfl, hended, hfeed⟩ := h
  obtain ⟨hwhole, hended', hfeed'⟩ := h'
  induction ls generalizing ls' with
  | nil =>
    cases ls' with
    | nil => exact ⟨rfl, by simpa [written] using hwhole⟩
    | cons m ms =>
      have hrest : rest = written (m :: ms) rest' := by simpa [written] using hwhole
      exact absurd (hrest ▸ feed_mem_written_cons m ms rest') hfeed
  | cons l ls ih =>
    obtain ⟨hl, hls⟩ := List.forall_mem_cons.mp hended
    cases ls' with
    | nil =>
      have hrest : written (l :: ls) rest = rest' := by simpa [written] using hwhole
      exact absurd (hrest ▸ feed_mem_written_cons l ls rest) hfeed'
    | cons m ms =>
      obtain ⟨hm, hms⟩ := List.forall_mem_cons.mp hended'
      -- the first pieces are the same, so the first lines are, and so is what follows them
      have hsplit := congrArg (fun t => split '\n' (String.toList t)) hwhole
      simp only [toList_written_cons, split_append hl.feed_before, split_append hm.feed_before,
        List.cons.injEq] at hsplit
      obtain rfl := hl.eq_of_append hm hsplit.1
      have htail := congrArg String.toList hwhole
      rw [toList_written_cons, toList_written_cons, List.append_cancel_left_eq, List.cons.injEq,
        String.toList_inj] at htail
      obtain ⟨rfl, rfl⟩ := ih hls htail.2 hms
      exact ⟨rfl, rfl⟩

/-- What follows the last line end is a line if it is not empty. -/
theorem lines_of_cut (h : IsCut text ls rest) :
    lines text = ls.map Prod.fst ++ if rest = "" then [] else [rest] := by
  obtain ⟨rfl, hended, hfeed⟩ := h
  induction ls with
  | nil =>
    have hsplit : split '\n' (written [] rest).toList = [rest.toList] := by
      rw [written, List.flatMap_nil, List.nil_append, String.ofList_toList, split_of_not_mem hfeed]
    rw [lines, hsplit, linesOfPieces]
    by_cases he : rest = ""
    · simp [he]
    · simp [he]
  | cons l ls ih =>
    obtain ⟨hl, hls⟩ := List.forall_mem_cons.mp hended
    rw [lines, toList_written_cons, split_append hl.feed_before, linesOfPieces_cons _ (split_ne_nil _ _),
      hl.dropReturn_eq, List.map_cons, String.ofList_toList, ← lines, ih hls]
    rfl

theorem lines_written (h : ∀ l ∈ ls, IsLine l.1) (hrest : '\n' ∉ rest.toList) :
    lines (written ls rest) = ls.map Prod.fst ++ if rest = "" then [] else [rest] :=
  lines_of_cut ⟨rfl, fun l hl => (h l hl).isEnded l.2, hrest⟩

end ClassListing.Text
