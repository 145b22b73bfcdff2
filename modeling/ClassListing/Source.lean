import ClassListing.ClassPath

/-!
Where the names of a listing come from: a list, the lines of a file, or the archives of a class path. A
name file is read once; after that its lines are those of that reading. A feed gives the names of
one pass, one after another.
-/

namespace ClassListing

inductive Source where
  | list (names : List String)
  /-- The lines are there once the file has been read. -/
  | nameFile (path : String) (lines : Option (List String))
  | classPath (c : ClassPath)

inductive Feed where
  | names (rest : List String)
  | pass (keeps : Filter String) (p : ClassPath.Pass)

namespace Feed

def next (f : Feed) (h : Host) : Option String × Feed × Host :=
  match f with
  | names [] => (none, names [], h)
  | names (x :: xs) => (some x, names xs, h)
  | pass keeps p =>
    let (x, p, h) := ClassPath.next keeps p h
    (x, pass keeps p, h)

/-- What every yield makes smaller. -/
def left : Feed → Nat × Nat
  | names rest => (0, rest.length)
  | pass _ p => p.supplyLeft ClassPath.namesLeft

theorem next_left {f g : Feed} {h k : Host} {x : String} (hn : f.next h = (some x, g, k)) :
    Prod.Lex (· < ·) (· < ·) g.left f.left := by
  match f with
  | names [] => simp [next] at hn
  | names (y :: ys) =>
    simp only [next, Prod.mk.injEq] at hn
    obtain ⟨-, rfl, -⟩ := hn
    exact Prod.Lex.right _ (Nat.lt_succ_self _)
  | pass keeps p =>
    simp only [next] at hn
    generalize hr : ClassPath.next keeps p h = r at hn
    obtain ⟨y, q, h'⟩ := r
    simp only [Prod.mk.injEq] at hn
    obtain ⟨rfl, rfl, rfl⟩ := hn
    exact ClassPath.next_smaller hr

def drain (f : Feed) (h : Host) : List String × Feed × Host :=
  match _hn : f.next h with
  | (none, f, h) => ([], f, h)
  | (some x, g, h) =>
    let (xs, g, h) := drain g h
    (x :: xs, g, h)
termination_by f.left
decreasing_by exact next_left _hn

def take : Nat → Feed → Host → List String × Feed × Host
  | 0, f, h => ([], f, h)
  | n + 1, f, h =>
    match f.next h with
    | (none, f, h) => ([], f, h)
    | (some x, f, h) =>
      let (xs, f, h) := take n f h
      (x :: xs, f, h)

end Feed

namespace Source

def ofNameFile (path : String) : Source := nameFile path none

def tag : Source → String
  | list _ => "LIST"
  | nameFile .. => "FILE_C"
  | classPath c => c.tag

/-- Starts a pass. The source afterwards is the same, or it has read its file. -/
def feed (s : Source) (h : Host) : Except Error Feed × Source × Host :=
  match s with
  | list names => (.ok (.names names), s, h)
  | nameFile _ (some lines) => (.ok (.names lines), s, h)
  | nameFile path none =>
    match readLines path h.disk with
    | .error e => (.error e, s, h)
    | .ok lines =>
      (.ok (.names lines), nameFile path (some lines),
        h.debug .nameFile s!"Read {lines.length} class names from {path}")
  | classPath c =>
    let (p, h) := c.start h
    (.ok (.pass c.filter p), s, h)

end Source

end ClassListing
