import ClassListing.CommandLine.Invocation

/-!
Reading command lines. Words are read from left to right, and an option is checked when it is complete:
at once if its value is attached to it, otherwise when the next option starts or the words end. So of two
faults the left one is reported, and a request for the version or for help hides the faults after it.
What the options say together is checked last.
-/

namespace ClassListing

inductive UsageError where
  | unknown (word : String)
  | missingValue (k : OptionKey)
  | needlessValue (k : OptionKey)
  | badValue (k : OptionKey) (value : String)
  | repeated (k : OptionKey)
  | conflict (a b : OptionKey)
  | noSelection
  deriving DecidableEq, Repr

def UsageError.message : UsageError → String
  | unknown word => s!"unexpected argument '{word}' found"
  | missingValue k => s!"a value is required for '{k.text}' but none was supplied"
  | needlessValue k => s!"a value was given for '{k.text}' but none is expected"
  | badValue k value => s!"invalid value '{value}' for '{k.text}'"
  | repeated k => s!"the argument '{k.text}' cannot be used multiple times"
  | conflict a b => s!"the argument '{a.text}' cannot be used with '{b.text}'"
  | noSelection => "one of -c, -f, --boot and --classpath-file is required"

inductive Stop where
  | usage (e : UsageError)
  | version
  | help
  deriving DecidableEq, Repr

/-! ## Words -/

inductive Word where
  | terminator
  | long (name : String) (value : Option String)
  | short (letters : List Char)
  | plain (text : String)
  deriving DecidableEq, Repr

def cutValue (cs : List Char) : String × Option String :=
  let value := match cs.dropWhile (· ≠ '=') with
    | [] => none
    | _ :: value => some (String.ofList value)
  (String.ofList (cs.takeWhile (· ≠ '=')), value)

def Word.ofText (text : String) : Word :=
  match text.toList with
  | ['-', '-'] => terminator
  | '-' :: '-' :: cs =>
    let (name, value) := cutValue cs
    long name value
  | '-' :: c :: cs => short (c :: cs)
  | _ => plain text

/-- One option may be written with a single dash although its name is long. -/
def spelled (word : String) : String := if word = "-boot" then "--boot" else word

/-! ## Reading words -/

structure Given where
  key : OptionKey
  values : List String
  deriving DecidableEq, Repr

structure Reading where
  given : List Given
  /-- The option whose values may still come. -/
  pending : Option Given
  deriving DecidableEq, Repr

namespace Reading

def add (r : Reading) (g : Given) : Except Stop Reading :=
  if g.key.arity ≠ .none && g.values.isEmpty then .error (.usage (.missingValue g.key))
  else if !g.key.repeats && r.given.any (fun o => o.key = g.key) then
    .error (.usage (.repeated g.key))
  else
    match g.values.find? fun v => !g.key.accepts v with
    | some v => .error (.usage (.badValue g.key v))
    | none => .ok { r with given := r.given ++ [g] }

def settle (r : Reading) : Except Stop Reading :=
  match r.pending with
  | none => .ok r
  | some g => { r with pending := none }.add g

def option (r : Reading) (k : OptionKey) (value : Option String) : Except Stop Reading :=
  match k.arity, value with
  | .none, some _ => .error (.usage (.needlessValue k))
  | .none, none =>
    match r.settle with
    | .error e => .error e
    | .ok r =>
      if k = .version then .error .version
      else if k = .help then .error .help
      else r.add ⟨k, []⟩
  | _, some v =>
    match r.settle with
    | .error e => .error e
    | .ok r => r.add ⟨k, [v]⟩
  | _, none =>
    match r.settle with
    | .error e => .error e
    | .ok r => .ok { r with pending := some ⟨k, []⟩ }

/-- The value attached to a letter: what follows it, less one equals sign. -/
def attached : List Char → Option String
  | [] => none
  | c :: cs => some (String.ofList (if c = '=' then cs else c :: cs))

/-- Letters after one dash. The first that takes values has the rest attached to it. -/
def letters (r : Reading) : List Char → Except Stop Reading
  | [] => .ok r
  | c :: cs =>
    match OptionKey.ofShort? c with
    | none => .error (.usage (.unknown ("-" ++ String.singleton c)))
    | some k =>
      if k.arity = .none then
        match r.option k none with
        | .error e => .error e
        | .ok r => r.letters cs
      else r.option k (attached cs)

def value (r : Reading) (text : String) : Except Stop Reading :=
  match r.pending with
  | none => .error (.usage (.unknown text))
  | some g =>
    if g.values.isEmpty || g.key.arity = .several then
      .ok { r with pending := some { g with values := g.values ++ [text] } }
    else .error (.usage (.unknown text))

def words (r : Reading) : List String → Except Stop (List Given)
  | [] => r.settle.map (·.given)
  | text :: rest =>
    match Word.ofText text with
    | .terminator =>
      match rest with
      | [] => r.settle.map (·.given)
      | w :: _ => .error (.usage (.unknown w))
    | .long name v =>
      match OptionKey.ofLong? name with
      | none => .error (.usage (.unknown ("--" ++ name)))
      | some k =>
        match r.option k v with
        | .error e => .error e
        | .ok r => r.words rest
    | .short cs =>
      match r.letters cs with
      | .error e => .error e
      | .ok r => r.words rest
    | .plain text =>
      match r.value text with
      | .error e => .error e
      | .ok r => r.words rest

end Reading

/-! ## What the options say together -/

namespace Given

def has (gs : List Given) (k : OptionKey) : Bool := gs.any fun g => g.key = k

def valuesOf (gs : List Given) (k : OptionKey) : List String :=
  gs.flatMap fun g => if g.key = k then g.values else []

def value? (gs : List Given) (k : OptionKey) : Option String := (valuesOf gs k).head?

/-- The options that choose names. Exactly one of them is needed. -/
def selectors : List OptionKey := [.classes, .nameFile, .boot, .classPathFile]

def exclusions : List (OptionKey × OptionKey) :=
  [(.platformOnly, .classes), (.platformOnly, .nameFile), (.platformOnly, .boot),
    (.terminal, .directory), (.terminal, .summary)]

def selection (gs : List Given) : Except UsageError Selection :=
  match selectors.filter (has gs) with
  | [] => .error .noSelection
  | a :: b :: _ => .error (.conflict a b)
  | [k] =>
    let path := (value? gs k).getD ""
    if k = .classes then .ok (.classes (valuesOf gs .classes))
    else if k = .nameFile then .ok (.nameFile path)
    else if k = .boot then .ok .boot
    else .ok (.classPathFile path (has gs .platformOnly))

def destination (gs : List Given) : Destination :=
  if has gs .terminal then .terminal
  else .file ((value? gs .directory).getD ".") (has gs .summary)

def invocation (gs : List Given) : Except UsageError Invocation :=
  match exclusions.find? fun (a, b) => has gs a && has gs b with
  | some (a, b) => .error (.conflict a b)
  | none =>
    match selection gs with
    | .error e => .error e
    | .ok selection =>
      .ok {
        selection
        format := ((value? gs .format).bind OutputFormat.ofText?).getD .signatures
        filter := ((value? gs .filter).bind MemberFilter.ofText?).getD .visible
        catalogs := valuesOf gs .catalog
        destination := destination gs
        verbose := has gs .verbose }

end Given

def Request.ofArguments (args : List String) : Except UsageError Request :=
  match Reading.words ⟨[], none⟩ (args.map spelled) with
  | .error (.usage e) => .error e
  | .error .version => .ok .version
  | .error .help => .ok .help
  | .ok gs =>
    match Given.invocation gs with
    | .error e => .error e
    | .ok i => .ok (.listing i)

end ClassListing
