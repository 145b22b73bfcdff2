import ClassListing.Catalog
import ClassListing.Renderer.Lines
import ClassListing.Sink
import ClassListing.Source

/-!
A listing: the classes of all names of a source are looked up, rendered and written. Classes that cannot be
looked up are skipped. The sink is opened once the names are there, and it is closed exactly once
whatever happens; the first failure is the one reported.
-/

namespace ClassListing

structure Summary where
  resolved : Nat
  skipped : Nat
  /-- Classes without a member to show. -/
  empty : Nat
  written : Nat
  deriving DecidableEq, Repr

def Summary.zero : Summary := ⟨0, 0, 0, 0⟩

def fileName (s : Source) (r : Renderer) : String :=
  if r.suffix = "" then s.tag ++ r.extension else s.tag ++ "_" ++ r.suffix ++ r.extension

structure Job (ρ σ : Type) where
  resolver : Resolver ρ
  formatter : Formatter
  sink : Sink σ

structure Progress (ρ σ : Type) where
  session : Session ρ
  sink : σ
  summary : Summary
  host : Host

namespace Job

variable {ρ σ : Type}

def put (j : Job ρ σ) (text : String) (p : Progress ρ σ) : Except Error Unit × Progress ρ σ :=
  let (r, sink, host) := j.sink.write text p.sink p.host
  (r, { p with sink, host })

def emit (j : Job ρ σ) (name : String) (c : JavaClass) (p : Progress ρ σ) :
    Except Error Unit × Progress ρ σ :=
  let p := { p with summary.resolved := p.summary.resolved + 1 }
  match j.formatter.format c with
  | .error e => (.error e, p)
  | .ok none =>
    (.ok (), { p with
      host := p.host.debug .listing s!"No qualifying members in {name}"
      summary.empty := p.summary.empty + 1 })
  | .ok (some text) =>
    match j.put text p with
    | (.error e, p) => (.error e, p)
    | (.ok (), p) => (.ok (), { p with summary.written := p.summary.written + 1 })

def visit (j : Job ρ σ) (name : String) (p : Progress ρ σ) : Except Error Unit × Progress ρ σ :=
  match p.session.resolve j.resolver name with
  | (.ok c, session) => j.emit name c { p with session }
  | (.error e, session) =>
    if e.isRecoverable then
      (.ok (), { p with
        session
        host := p.host.warn .listing s!"Skipping {name}: {e.message}"
        summary.skipped := p.summary.skipped + 1 })
    else (.error e, { p with session })

def visitAll (j : Job ρ σ) (f : Feed) (p : Progress ρ σ) : Except Error Unit × Progress ρ σ :=
  match _hn : f.next p.host with
  | (none, _, host) => (.ok (), { p with host })
  | (some name, g, host) =>
    match j.visit name { p with host } with
    | (.error e, p) => (.error e, p)
    | (.ok (), p) => visitAll j g p
termination_by f.left
decreasing_by exact Feed.next_left _hn

def body (j : Job ρ σ) (f : Feed) (p : Progress ρ σ) : Except Error Unit × Progress ρ σ :=
  if j.formatter.header = "" then j.visitAll f p
  else
    match j.put j.formatter.header p with
    | (.error e, p) => (.error e, p)
    | (.ok (), p) => j.visitAll f p

def whileOpen (j : Job ρ σ) (tag : String) (f : Feed) (p : Progress ρ σ) :
    Except Error Summary × Progress ρ σ :=
  match j.body f p with
  | (.error e, p) =>
    let (sink, host) := j.sink.abandon p.sink p.host
    (.error e, { p with sink, host })
  | (.ok (), p) =>
    match j.sink.release p.sink p.host with
    | (.error e, sink, host) => (.error e, { p with sink, host })
    | (.ok (), sink, host) =>
      let s := p.summary
      (.ok s, { p with
        sink
        host := host.info .listing
          s!"{tag}: {s.written} classes written, {s.empty} without members, {s.skipped} skipped" })

/-- Lists a source. The source afterwards may have read its file. -/
def run (j : Job ρ σ) (source : Source) (session : Session ρ) (sink : σ) (h : Host) :
    Except Error Summary × Source × Progress ρ σ :=
  match source.feed h with
  | (.error e, source, host) => (.error e, source, ⟨session, sink, .zero, host⟩)
  | (.ok feed, source, host) =>
    match j.sink.acquire sink host with
    | (.error e, sink, host) => (.error e, source, ⟨session, sink, .zero, host⟩)
    | (.ok (), sink, host) =>
      let (result, p) := j.whileOpen source.tag feed ⟨session, sink, .zero, host⟩
      (result, source, p)

end Job

def listToFile {ρ : Type} (resolver : Resolver ρ) (renderer : Renderer) (source : Source)
    (session : Session ρ) (dir : String) (h : Host) :
    Except Error (String × Summary) × Source × Progress ρ FileSink :=
  let sink := FileSink.inDirectory dir (fileName source renderer)
  let (result, source, p) := Job.run ⟨resolver, renderer, FileSink.sink⟩ source session sink h
  (result.map fun s => (sink.path, s), source, p)

end ClassListing
