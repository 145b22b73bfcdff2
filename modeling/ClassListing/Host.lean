import ClassListing.Disk
import ClassListing.Filter

/-!
What a listing runs on: the disk and what may be read of it, the environment, the log, standard output, and
the questions that name filters have been asked.
-/

namespace ClassListing

inductive Level where
  | error
  | warn
  | info
  | debug
  | trace
  deriving DecidableEq, Repr

inductive Component where
  | archive
  | nameFile
  | classPath
  | catalog
  | session
  | sink
  | fileSink
  | listing
  | command
  deriving DecidableEq, Repr

structure LogRecord where
  component : Component
  level : Level
  text : String
  deriving DecidableEq, Repr

structure Host where
  disk : Disk
  env : List (String × String)
  log : List LogRecord
  stdout : String
  asked : List (Question String)
  /-- Directories whose names cannot be read, though paths lead through them. -/
  unlisted : List Location

namespace Host

def ofDisk (disk : Disk) (env : List (String × String)) : Host := ⟨disk, env, [], "", [], []⟩

def var? (h : Host) (name : String) : Option String := h.env.lookup name

/-- The names in a directory, if the path leads to one and it can be read. -/
def list? (h : Host) (path : String) : Option (List String) :=
  match h.disk.locate path with
  | .error _ => none
  | .ok place =>
    if h.disk.node? place = some .directory && !h.unlisted.contains place then
      some (h.disk.namesIn place)
    else none

def logged (h : Host) (component : Component) (level : Level) (text : String) : Host :=
  { h with log := h.log ++ [⟨component, level, text⟩] }

def debug (h : Host) (component : Component) (text : String) : Host := h.logged component .debug text

def info (h : Host) (component : Component) (text : String) : Host := h.logged component .info text

def warn (h : Host) (component : Component) (text : String) : Host := h.logged component .warn text

end Host

end ClassListing
