import ClassListing.CommandLine.Arguments
import ClassListing.CommandLine.LogStyle
import ClassListing.Filter.Definition
import ClassListing.Filter.Name
import ClassListing.Run

/-!
The command: it selects a source of names, loads the catalogs, writes the listing and reports. It
succeeds or it fails with one error and what it was doing; a class or an archive that cannot be used is no
failure.
-/

namespace ClassListing

structure Failure where
  context : String
  error : Error
  deriving DecidableEq, Repr

namespace Failure

def causes (f : Failure) : List String := f.error.message :: f.error.cause?.toList

def causeLines : List String → String
  | [cause] => "    " ++ indented 4 cause ++ "\n"
  | causes =>
    String.join (causes.zipIdx.map fun (cause, n) => s!"    {n}: {indented 7 cause}\n")

def report (f : Failure) : String :=
  s!"Error: {f.context}\n\nCaused by:\n{causeLines f.causes}"

end Failure

def Summary.toJson (s : Summary) : String :=
  let field (name : String) (n : Nat) : String := s!"  \"{name}\": {n}"
  "\x7b\n" ++ ",\n".intercalate [field "resolved" s.resolved, field "skipped" s.skipped,
    field "empty" s.empty, field "written" s.written] ++ "\n\x7d\n"

namespace Invocation

def nameFilter (platformOnly : Bool) : Filter String :=
  .leaf FilterScope.firstFree (if platformOnly then NameFilter.platform else .everything)

def source (i : Invocation) (h : Host) : Except Failure (Source × List String) × Host :=
  match i.selection with
  | .classes names => (.ok (.list names, []), h)
  | .nameFile path => (.ok (.ofNameFile path, []), h)
  | .boot =>
    let (c, h) := ClassPath.boot (nameFilter false) h
    (.ok (.classPath c, c.paths), h)
  | .classPathFile path platformOnly =>
    match ClassPath.ofFile path (nameFilter platformOnly) h.disk with
    | .error e => (.error ⟨s!"failed to read class path file: {path}", e⟩, h)
    | .ok c => (.ok (.classPath c, c.paths), h)

/-- The format and the filter. The boot class path is always listed in detail. -/
def style (i : Invocation) : OutputFormat × MemberFilter :=
  if i.selection = .boot then (.detailedCsv, .visible) else (i.format, i.filter)

def renderer (i : Invocation) : Renderer :=
  (i.style.1.renderer (some i.style.2.filter) FilterScope.firstFree).1

def session (i : Invocation) (paths : List String) (h : Host) :
    Except Failure (Session Catalog) × Host :=
  let h :=
    if i.catalogs = [] then h.warn .command "No class catalog given, no class can be resolved" else h
  match Catalog.ofFiles i.catalogs h with
  | (.error e, h) => (.error ⟨"failed to load class catalogs", e⟩, h)
  | (.ok c, h) =>
    let h := h.debug .command s!"{c.size} classes in catalogs"
    let s := Session.start c
    if paths = [] then (.ok s, h)
    else
      let (s, h) := s.setClassPath Catalog.resolver paths h
      (.ok s, h)

def write (i : Invocation) (source : Source) (s : Session Catalog) (h : Host) :
    Except Failure (Session Catalog × Summary) × Host :=
  match i.destination with
  | .terminal =>
    let (result, _, p) := Job.run ⟨Catalog.resolver, i.renderer, TerminalSink.sink⟩ source s
      TerminalSink.closed h
    match result with
    | .error e => (.error ⟨"failed to list classes", e⟩, p.host)
    | .ok summary => (.ok (p.session, summary), p.host)
  | .file directory _ =>
    let (result, _, p) := listToFile Catalog.resolver i.renderer source s directory h
    match result with
    | .error e => (.error ⟨s!"failed to write listing to {directory}", e⟩, p.host)
    | .ok (path, summary) => (.ok (p.session, summary), p.host.info .command s!"Wrote {path}")

def report (i : Invocation) (summary : Summary) (h : Host) : Host :=
  match i.destination with
  | .file _ true => { h with stdout := h.stdout ++ summary.toJson }
  | _ => h

def run (i : Invocation) (h : Host) : Except Failure Summary × Host :=
  match i.source h with
  | (.error f, h) => (.error f, h)
  | (.ok (source, paths), h) =>
    match i.session paths (h.debug .command s!"Listing {source.tag}") with
    | (.error f, h) => (.error f, h)
    | (.ok s, h) =>
      match i.write source s h with
      | (.error f, h) => (.error f, h)
      | (.ok (s, summary), h) => (.ok summary, i.report summary (s.close h))

end Invocation

/-! ## The command -/

structure Outcome where
  code : UInt8
  stdout : String
  stderr : String
  disk : Disk

namespace Outcome

def settingVariable : String := "RUST_LOG"

def logFilter (verbose : Bool) (h : Host) : LogFilter × List String :=
  match h.var? settingVariable with
  | some setting => (LogFilter.default verbose).configure setting
  | none => (.default verbose, [])

def ofListing (i : Invocation) (h : Host) : Outcome :=
  let (filter, warnings) := logFilter i.verbose h
  let (result, h) := i.run h
  let log := String.join warnings ++
    String.join ((h.log.filter filter.shows).map (LogStyle.ofHost h).render)
  match result with
  | .ok _ => ⟨0, h.stdout, log, h.disk⟩
  | .error f => ⟨1, h.stdout, log ++ f.report, h.disk⟩

def versionText : String := "jlscope 0.1.0\n"

def usage : String :=
  "Usage: jlscope [OPTIONS] <-c <CLASS>...|-f <FILE>|--boot|--classpath-file <FILE>>\n"

def usageReport (e : UsageError) : String :=
  s!"error: {e.message}\n\n{usage}\nFor more information, try '--help'.\n"

def helpText : String :=
  "Command line front end for jlscope\n\n" ++ usage ++ "\nOptions:\n" ++
  "  -c <CLASS>...                List the given fully qualified class names\n" ++
  "  -f <FILE>                    List the class names in FILE, one per line\n" ++
  "      --boot                   List the classes of the boot class path " ++
  "(detailed CSV, visible members)\n" ++
  "      --classpath-file <FILE>  List the classes of the archives in FILE, one path per line\n" ++
  "      --jdk-only               Only list platform classes from the class path file\n" ++
  "      --format <FORMAT>        Output format: pscout, csv, csv-detail, class-only " ++
  "[default: pscout]\n" ++
  "      --filter <FILTER>        Member filter: all, field, method, init, clinit, executable, native, " ++
  "visible [default: visible]\n" ++
  "      --catalog <FILE>         JSON class catalog used to resolve classes. " ++
  "Can be given more than once\n" ++
  "      --stdout                 Write the listing to standard output instead of a file\n" ++
  "      --output-dir <DIR>       Directory for the output file\n" ++
  "      --json                   Print the run summary as JSON\n" ++
  "  -v, --verbose                Enable verbose (debug-level) logging output\n" ++
  "  -h, --help                   Print help\n" ++
  "  -V, --version                Print version\n"

def ofArguments (args : List String) (h : Host) : Outcome :=
  match Request.ofArguments args with
  | .error e => ⟨2, "", usageReport e, h.disk⟩
  | .ok .version => ⟨0, versionText, "", h.disk⟩
  | .ok .help => ⟨0, helpText, "", h.disk⟩
  | .ok (.listing i) => ofListing i h

end Outcome

end ClassListing
