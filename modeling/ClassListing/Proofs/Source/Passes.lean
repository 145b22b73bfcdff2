import ClassListing.Proofs.Host.Keeping
import ClassListing.Proofs.Text.Lines

/-!
# Name files are read once

Passes over a name file are started and gone through while the disk changes. As long as the file cannot be read
every start fails and leaves nothing behind. The first reading that succeeds decides the names of its own
pass and of all later ones, whatever becomes of the file.
-/

namespace ClassListing

set_option autoImplicit false

/-! ## Going through a list of names -/

theorem Feed.drain_names (names : List String) (h : Host) :
    ((Feed.names names).drain h).1 = names := by
  induction names with
  | nil =>
    rw [drain]
    rfl
  | cons x xs ih =>
    rw [drain]
    exact congrArg (x :: ·) ih

theorem Feed.take_names (n : Nat) (names : List String) (h : Host) :
    take n (.names names) h = (names.take n, .names (names.drop n), h) := by
  induction n generalizing names with
  | zero => simp [take]
  | succ n ih =>
    cases names with
    | nil => simp [take, next]
    | cons x xs => simp [take, next, ih]

/-! ## Histories -/

inductive SourceEvent where
  | start
  /-- So many names are taken from a pass, the passes being numbered from zero. -/
  | take (pass count : Nat)
  /-- Anything may become of the disk, and so of the file. -/
  | change (disk : Disk)

/-- The names that a pass has given, and what gives the others. -/
structure SourcePass where
  given : List String
  feed : Feed

/-- All the names of a pass, from its start. -/
def SourcePass.names (p : SourcePass) (h : Host) : List String := p.given ++ (p.feed.drain h).1

/-- A source in use, with what has come of every start of a pass. -/
structure SourceUse where
  source : Source
  host : Host
  passes : List (Except Error SourcePass)

namespace SourceUse

def next (u : SourceUse) : SourceEvent → SourceUse
  | .start =>
    let (feed, source, host) := u.source.feed u.host
    ⟨source, host, u.passes ++ [feed.map fun f => ⟨[], f⟩]⟩
  | .take pass count =>
    match u.passes[pass]? with
    | some (.ok p) =>
      let (names, feed, host) := p.feed.take count u.host
      { u with host, passes := u.passes.set pass (.ok ⟨p.given ++ names, feed⟩) }
    | _ => u
  | .change disk => { u with host := { u.host with disk } }

def after (u : SourceUse) (events : List SourceEvent) : SourceUse := events.foldl next u

variable {u : SourceUse} {pass : Nat}

theorem next_take_of_ok {p : SourcePass} (hp : u.passes[pass]? = some (.ok p)) (count : Nat) :
    u.next (.take pass count) =
      { u with
        host := (p.feed.take count u.host).2.2
        passes := u.passes.set pass
          (.ok ⟨p.given ++ (p.feed.take count u.host).1, (p.feed.take count u.host).2.1⟩) } := by
  simp only [next, hp]

theorem next_take_of_failed (hp : ∀ p, u.passes[pass]? ≠ some (.ok p)) (count : Nat) :
    u.next (.take pass count) = u := by
  cases h : u.passes[pass]? with
  | none => simp only [next, h]
  | some r =>
    cases r with
    | error e => simp only [next, h]
    | ok p => exact absurd h (hp p)

theorem disk_next_start (u : SourceUse) : (u.next .start).host.disk = u.host.disk :=
  (u.source.feed_keeps u.host).disk

end SourceUse

/-- What a reading of the file gives at each start of a pass. -/
def readings (path : String) : Disk → List SourceEvent → List (Except DiskError String)
  | _, [] => []
  | d, .start :: events => d.readText path :: readings path d events
  | d, .take .. :: events => readings path d events
  | _, .change d :: events => readings path d events

/-! ## Name files -/

section NameFile

variable {path : String} {u : SourceUse}

def unreadable (path : String) (causes : List DiskError) : List (Except Error SourcePass) :=
  causes.map fun cause => .error (.source path cause)

/-- What a name file in use comes to, by what readings of the file give: nothing until one of them succeeds, and
from then on the lines of that reading. -/
inductive NameFileStands (path : String) : List (Except DiskError String) → SourceUse → Prop
  | unread (causes : List DiskError) (h : Host) :
      NameFileStands path (causes.map .error) ⟨.ofNameFile path, h, unreadable path causes⟩
  | read (causes : List DiskError) (text : String) (later : List (Except DiskError String)) (h : Host)
      (passes : List SourcePass) (length : passes.length = later.length + 1)
      (lines : ∀ p ∈ passes, ∃ rest, p.feed = .names rest ∧ p.given ++ rest = Text.lines text) :
      NameFileStands path (causes.map .error ++ .ok text :: later)
        ⟨.nameFile path (some (Text.lines text)), h, unreadable path causes ++ passes.map .ok⟩

theorem NameFileStands.start {held : List (Except DiskError String)} (hu : NameFileStands path held u) :
    NameFileStands path (held ++ [u.host.disk.readText path]) (u.next .start) := by
  cases hu with
  | unread causes h =>
    simp only [SourceUse.next, Source.ofNameFile, Source.feed, readLines]
    cases h.disk.readText path with
    | error cause =>
      have hu : NameFileStands path _ _ := .unread (causes ++ [cause]) h
      rw [unreadable, List.map_append, List.map_append] at hu
      exact hu
    | ok text => exact .read causes text [] _ [⟨[], .names (Text.lines text)⟩] rfl (by simp)
  | read causes text later h passes length lines =>
    have hlines : ∀ p ∈ passes ++ [⟨[], .names (Text.lines text)⟩],
        ∃ rest, p.feed = .names rest ∧ p.given ++ rest = Text.lines text := by
      intro p hp
      rcases List.mem_append.mp hp with hp | hp
      · exact lines p hp
      · obtain rfl := List.mem_singleton.mp hp
        exact ⟨Text.lines text, rfl, rfl⟩
    have hu : NameFileStands path _ _ :=
      .read causes text (later ++ [h.disk.readText path]) h _ (by simp [length]) hlines
    rw [List.map_append, ← List.append_assoc] at hu
    rw [List.append_assoc, List.cons_append]
    exact hu

theorem unreadable_ne_ok (causes : List DiskError) (pass : Nat) (p : SourcePass) :
    (unreadable path causes)[pass]? ≠ some (.ok p) := by
  intro hp
  obtain ⟨cause, -, hc⟩ := List.mem_map.mp (List.mem_of_getElem? hp)
  cases hc

/-- Taking names moves them from what is to come to what has been given, and does nothing else. -/
theorem NameFileStands.take {held : List (Except DiskError String)} (hu : NameFileStands path held u)
    (pass count : Nat) : NameFileStands path held (u.next (.take pass count)) ∧
      (u.next (.take pass count)).host = u.host := by
  by_cases hfailed : ∀ p, u.passes[pass]? ≠ some (.ok p)
  · rw [SourceUse.next_take_of_failed hfailed]
    exact ⟨hu, rfl⟩
  · simp only [not_forall, not_not] at hfailed
    obtain ⟨p, hp⟩ := hfailed
    rw [SourceUse.next_take_of_ok hp]
    cases hu with
    | unread causes h => exact absurd hp (unreadable_ne_ok causes pass p)
    | read causes text later h passes length lines =>
      have hge : (unreadable path causes).length ≤ pass := by
        by_contra hlt
        rw [List.getElem?_append_left (Nat.lt_of_not_le hlt)] at hp
        exact unreadable_ne_ok causes pass p hp
      rw [List.getElem?_append_right hge, List.getElem?_map, Option.map_eq_some_iff] at hp
      obtain ⟨q, hq, hpq⟩ := hp
      cases hpq
      obtain ⟨rest, hfeed, hall⟩ := lines p (List.mem_of_getElem? hq)
      rw [List.set_append_right _ _ hge, ← List.map_set, hfeed, Feed.take_names]
      refine ⟨.read causes text later h _ (by simpa using length) ?_, rfl⟩
      intro r hr
      rcases List.mem_or_eq_of_mem_set hr with hr | rfl
      · exact lines r hr
      · exact ⟨rest.drop count, rfl, by simpa using hall⟩

theorem NameFileStands.change {held : List (Except DiskError String)} (hu : NameFileStands path held u)
    (d : Disk) : NameFileStands path held (u.next (.change d)) := by
  cases hu with
  | unread causes h => exact .unread causes _
  | read causes text later h passes length lines => exact .read causes text later _ passes length lines

theorem NameFileStands.after {held : List (Except DiskError String)} (hu : NameFileStands path held u)
    (events : List SourceEvent) :
    NameFileStands path (held ++ readings path u.host.disk events) (u.after events) := by
  -- what has been held grows at every start, and the disk is what the last change has made of it
  induction events generalizing held u with
  | nil => exact (List.append_nil held).symm ▸ hu
  | cons event events ih =>
    cases event with
    | start =>
      have hrest := ih hu.start
      rw [SourceUse.disk_next_start, List.append_assoc] at hrest
      exact hrest
    | take pass count =>
      obtain ⟨htake, hhost⟩ := hu.take pass count
      have hrest := ih htake
      rw [hhost] at hrest
      exact hrest
    | change d => exact ih (hu.change d)

/-- A reading succeeds if the file is there and is the UTF-8 of a text. As long as no start of a pass finds
the file readable, every start fails with the path of the file and the cause, and the file is still to be
read. The first reading that succeeds gives the names of the pass that is started then and of every pass
after it: the lines of its text, which is in one way only a list of lines with line ends and what follows
them, from the first to the last, whatever the disk has become since and whatever has been taken from
other passes. -/
theorem name_file_read_once (path : String) (h : Host) (events : List SourceEvent) :
    let u := SourceUse.after ⟨.ofNameFile path, h, []⟩ events
    let held := readings path h.disk events
    (∀ (d : Disk) (text : String), d.readText path = .ok text ↔ d.read path = .ok text.toUTF8) ∧
    ((∃ causes : List DiskError, held = causes.map .error ∧
      u.passes = causes.map (fun cause => .error (.source path cause)) ∧
      u.source = .ofNameFile path) ∨
    ∃ causes : List DiskError, ∃ text later, ∃ passes : List SourcePass,
      held = causes.map .error ++ .ok text :: later ∧
      u.passes = causes.map (fun cause => .error (.source path cause)) ++ passes.map .ok ∧
      passes.length = later.length + 1 ∧
      ∃ ls rest, Text.IsCut text ls rest ∧
        (∀ ls' rest', Text.IsCut text ls' rest' → ls' = ls ∧ rest' = rest) ∧
        let lines := ls.map Prod.fst ++ if rest = "" then [] else [rest]
        u.source = .nameFile path (some lines) ∧ ∀ p ∈ passes, p.names u.host = lines) := by
  intro u held
  have hu : NameFileStands path held u := NameFileStands.after (.unread [] h) events
  clear_value u held
  refine ⟨fun _ _ => Disk.readText_eq_ok_iff, ?_⟩
  cases hu with
  | unread causes h => exact .inl ⟨causes, rfl, rfl, rfl⟩
  | read causes text later h passes length lines =>
    obtain ⟨ls, rest, hc⟩ := Text.exists_cut text
    have hlines := Text.lines_of_cut hc
    refine .inr ⟨causes, text, later, passes, rfl, rfl, length, ls, rest, hc,
      fun ls' rest' hc' => hc'.unique hc, congrArg (fun lines => Source.nameFile path (some lines)) hlines, ?_⟩
    intro p hp
    obtain ⟨left, hfeed, hall⟩ := lines p hp
    rw [SourcePass.names, hfeed, Feed.drain_names, hall, hlines]

end NameFile

end ClassListing
