import ClassListing.Text.CodePage437
import ClassListing.Zip.Directory
import ClassListing.Zip.Extra

/-!
The entries of a zip archive. The archive is found through a record near the end of the data; a record
that leads nowhere is skipped for the one before it.
-/

namespace ClassListing.Zip

/-! ## Directory entries -/

structure Entry where
  name : String
  /-- Whether a local header stands where the directory says. -/
  readable : Bool
  deriving DecidableEq, Repr

/-- A text is UTF-8 if a flag says so, else in code page 437. -/
def decodeText (flags : Nat) (bytes : Bytes) : String :=
  String.ofList (if flags / 2048 % 2 = 1 then Utf8.decodeLossy bytes else CodePage437.decode bytes)

/-- The method of encrypted entries that say elsewhere how they are compressed. -/
def encryptedMethod : Nat := 99

def localHeaderSize : Nat := 30

def headerAt (data : ByteArray) (i nameEnd extraEnd stop : Nat) : Header :=
  let flags := wordAt data (i + 8)
  let nameBytes := slice data (i + entrySize) nameEnd
  { name := decodeText flags nameBytes
    nameBytes
    comment := decodeText flags (slice data extraEnd stop)
    method := wordAt data (i + 10)
    unpacked := longAt data (i + 24)
    packed := longAt data (i + 20)
    localOffset := longAt data (i + 42)
    described := false }

def entryAt? (data : ByteArray) (d : Directory) (i : Nat) : Option (Entry × Nat) :=
  let nameEnd := i + entrySize + wordAt data (i + 28)
  let extraEnd := nameEnd + wordAt data (i + 30)
  let stop := extraEnd + wordAt data (i + 32)
  if !hasSignature data i 1 2 || data.size < i + entrySize || data.size < stop then none
  else
    match (headerAt data i nameEnd extraEnd stop).amended? (slice data nameEnd extraEnd) with
    | none => none
    | some h =>
      let localHeader := h.localOffset + d.shift
      if h.method = encryptedMethod && !h.described then none
      else if d.start ≤ localHeader then none
      else
        some (⟨h.name, hasSignature data localHeader 3 4 && localHeader + localHeaderSize ≤ data.size⟩,
          stop)

def entriesAt? (data : ByteArray) (d : Directory) : Nat → Nat → Option (List Entry)
  | 0, _ => some []
  | count + 1, i =>
    match entryAt? data d i with
    | none => none
    | some (e, next) => (entriesAt? data d count next).map (e :: ·)

def EndRecord.entries? (data : ByteArray) (r : EndRecord) : Option (List Entry) :=
  match r.directory? data with
  | none => none
  | some d => entriesAt? data d d.count d.start

/-! ## The archive -/

def insertEntry (e : Entry) : List Entry → List Entry
  | [] => [e]
  | f :: rest => if f.name = e.name then e :: rest else f :: insertEntry e rest

/-- Keeps one entry of each name: at the place of the first, with the data of the last. -/
def uniqueEntries (es : List Entry) : List Entry := es.foldl (fun done e => insertEntry e done) []

/-- The entries according to the last usable end record before a position. -/
def search? (data : ByteArray) : Nat → Option (List Entry)
  | 0 => none
  | i + 1 =>
    match (endRecordAt? data i).bind (·.entries? data) with
    | some es => some es
    | none => search? data i

def read? (data : ByteArray) : Option (List Entry) := (search? data data.size).map uniqueEntries

end ClassListing.Zip
