import ClassListing.Error
import ClassListing.Host

/-!
Where listings are written. A sink is closed or open; opening an open one and closing a closed one do
nothing, and writing needs an open one. Files and standard output are written through a buffer.
-/

namespace ClassListing

structure Sink (σ : Type) where
  acquire : σ → Host → Except Error Unit × σ × Host
  write : String → σ → Host → Except Error Unit × σ × Host
  release : σ → Host → Except Error Unit × σ × Host
  isOpen : σ → Bool

/-! ## Buffers -/

namespace Buffer

def capacity : Nat := 8192

/-- What is passed on and what waits when a text is added to what waits already. A text never waits in
pieces. -/
def add (waiting text : String) : String × String :=
  let (passed, waiting) :=
    if capacity < waiting.utf8ByteSize + text.utf8ByteSize then (waiting, "") else ("", waiting)
  if capacity ≤ text.utf8ByteSize then (passed ++ text, waiting) else (passed, waiting ++ text)

/-- Adding loses nothing and keeps the order. -/
theorem add_append (waiting text : String) :
    (add waiting text).1 ++ (add waiting text).2 = waiting ++ text := by
  unfold add
  by_cases h : capacity < waiting.utf8ByteSize + text.utf8ByteSize
  · by_cases ht : capacity ≤ text.utf8ByteSize <;> simp [h, ht]
  · by_cases ht : capacity ≤ text.utf8ByteSize
    · have : waiting.utf8ByteSize = 0 := by omega
      have hw : waiting = "" := by simpa using this
      simp [ht, hw]
    · simp [h, ht]

end Buffer

/-! ## Files -/

structure OpenFile where
  location : Location
  waiting : String
  deriving DecidableEq, Repr

structure FileSink where
  path : String
  file : Option OpenFile
  deriving DecidableEq, Repr

namespace FileSink

def closed (path : String) : FileSink := ⟨path, none⟩

def inDirectory (dir name : String) : FileSink := closed (Path.join dir name)

def acquire (s : FileSink) (h : Host) : Except Error Unit × FileSink × Host :=
  match s.file with
  | some _ => (.ok (), s, h)
  | none =>
    match h.disk.create s.path with
    | .error e => (.error (.file e), s, h)
    | .ok (location, disk) =>
      (.ok (), { s with file := some ⟨location, ""⟩ },
        { h with disk }.debug .fileSink s!"Writing to {s.path}")

def write (text : String) (s : FileSink) (h : Host) : Except Error Unit × FileSink × Host :=
  match s.file with
  | none => (.error (.sinkState "print on a closed file printer"), s, h)
  | some f =>
    let (passed, waiting) := Buffer.add f.waiting text
    (.ok (), { s with file := some { f with waiting } },
      { h with disk := h.disk.append f.location passed })

def release (s : FileSink) (h : Host) : Except Error Unit × FileSink × Host :=
  match s.file with
  | none => (.ok (), s, h)
  | some f =>
    (.ok (), { s with file := none }, { h with disk := h.disk.append f.location f.waiting })

def sink : Sink FileSink := ⟨acquire, write, release, fun s => s.file.isSome⟩

end FileSink

/-! ## Standard output -/

structure TerminalSink where
  waiting : Option String
  deriving DecidableEq, Repr

namespace TerminalSink

def closed : TerminalSink := ⟨none⟩

def acquire (s : TerminalSink) (h : Host) : Except Error Unit × TerminalSink × Host :=
  match s.waiting with
  | some _ => (.ok (), s, h)
  | none => (.ok (), ⟨some ""⟩, h)

def write (text : String) (s : TerminalSink) (h : Host) :
    Except Error Unit × TerminalSink × Host :=
  match s.waiting with
  | none => (.error (.sinkState "print on a closed stdout printer"), s, h)
  | some waiting =>
    let (passed, waiting) := Buffer.add waiting text
    (.ok (), ⟨some waiting⟩, { h with stdout := h.stdout ++ passed })

def release (s : TerminalSink) (h : Host) : Except Error Unit × TerminalSink × Host :=
  match s.waiting with
  | none => (.ok (), s, h)
  | some waiting => (.ok (), ⟨none⟩, { h with stdout := h.stdout ++ waiting })

def sink : Sink TerminalSink := ⟨acquire, write, release, fun s => s.waiting.isSome⟩

end TerminalSink

/-! ## One open phase -/

namespace Sink

variable {σ : Type}

/-- Closes a sink after a failure. A failure of closing can only be logged. -/
def abandon (k : Sink σ) (s : σ) (h : Host) : σ × Host :=
  match k.release s h with
  | (.ok (), s, h) => (s, h)
  | (.error e, s, h) => (s, h.warn .sink s!"Failed to close printer: {e.message}")

def writeAll (k : Sink σ) : List String → σ → Host → Except Error Unit × σ × Host
  | [], s, h => (.ok (), s, h)
  | text :: texts, s, h =>
    match k.write text s h with
    | (.ok (), s, h) => writeAll k texts s h
    | (.error e, s, h) => (.error e, s, h)

/-- Opens a sink, writes texts, and closes it. If the phase is not to be finished, closing is not
reported. -/
def phase (k : Sink σ) (texts : List String) (finish : Bool) (s : σ) (h : Host) :
    Except Error Unit × σ × Host :=
  match k.acquire s h with
  | (.error e, s, h) => (.error e, s, h)
  | (.ok (), s, h) =>
    match k.writeAll texts s h with
    | (.error e, s, h) =>
      let (s, h) := k.abandon s h
      (.error e, s, h)
    | (.ok (), s, h) =>
      if finish then k.release s h
      else
        let (s, h) := k.abandon s h
        (.ok (), s, h)

/-! ## Recording -/

inductive Call where
  | acquire
  | write (text : String)
  | release
  deriving DecidableEq, Repr

/-- The same sink with a record of all calls, whatever comes of them. -/
def recorded (k : Sink σ) : Sink (σ × List Call) where
  acquire s h :=
    let (r, t, h) := k.acquire s.1 h
    (r, (t, s.2 ++ [.acquire]), h)
  write text s h :=
    let (r, t, h) := k.write text s.1 h
    (r, (t, s.2 ++ [.write text]), h)
  release s h :=
    let (r, t, h) := k.release s.1 h
    (r, (t, s.2 ++ [.release]), h)
  isOpen s := k.isOpen s.1

end Sink

end ClassListing
