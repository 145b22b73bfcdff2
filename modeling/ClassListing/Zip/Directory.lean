import ClassListing.Zip.Numbers

/-!
Where the directory of an archive stands. A record at the end of the data says so, relative to the start of
the archive. Data in front of the archive shifts all offsets, and the place where the
directory, or the record of a large archive, really is tells by how much.
-/

namespace ClassListing.Zip

structure Directory where
  start : Nat
  /-- How far the archive is shifted. -/
  shift : Nat
  count : Nat

/-! ## The end record -/

structure EndRecord where
  position : Nat
  disk : Nat
  directoryDisk : Nat
  entries : Nat
  /-- The number of entries of the whole archive. -/
  total : Nat
  offset : Nat

def endRecordSize : Nat := 22

def endRecordAt? (data : ByteArray) (i : Nat) : Option EndRecord :=
  if hasSignature data i 5 6 && i + endRecordSize + wordAt data (i + 20) ≤ data.size &&
      i + endRecordSize ≤ data.size then
    some {
      position := i
      disk := wordAt data (i + 4)
      directoryDisk := wordAt data (i + 6)
      entries := wordAt data (i + 8)
      total := wordAt data (i + 10)
      offset := longAt data (i + 16) }
  else none

def firstRecord? (data : ByteArray) (i : Nat) : Nat → Option Nat
  | 0 => none
  | count + 1 => if hasSignature data i 1 2 then some i else firstRecord? data (i + 1) count

def EndRecord.shift? (data : ByteArray) (r : EndRecord) : Option Nat :=
  if r.total = 0 then some (r.position - r.offset)
  else if r.position ≤ r.offset then none
  else (firstRecord? data r.offset (r.position - r.offset)).map fun i => i - r.offset

def EndRecord.smallDirectory? (data : ByteArray) (r : EndRecord) : Option Directory :=
  match r.shift? data with
  | none => none
  | some shift =>
    if r.disk = r.directoryDisk then some ⟨r.offset + shift, shift, r.entries⟩ else none

/-! ## Large archives -/

/-- Stands directly before the end record of a large archive and says where its own record is. -/
structure Locator where
  position : Nat
  directoryDisk : Nat
  offset : Nat
  disks : Nat

def locatorSize : Nat := 20

/-- Whether the numbers of an end record may stand elsewhere. -/
def EndRecord.mayBeLarge (r : EndRecord) : Bool := r.total = 0xFFFF || r.offset = 0xFFFFFFFF

def EndRecord.locator? (data : ByteArray) (r : EndRecord) : Option Locator :=
  let i := r.position - locatorSize
  if r.mayBeLarge && locatorSize ≤ r.position && hasSignature data i 6 7 then
    some {
      position := i
      directoryDisk := longAt data (i + 4)
      offset := quadAt data (i + 8)
      disks := longAt data (i + 16) }
  else none

structure LargeRecord where
  position : Nat
  writer : Nat
  needed : Nat
  disk : Nat
  directoryDisk : Nat
  entries : Nat
  total : Nat
  offset : Nat

def leastLargeSize : Nat := 44

def entrySize : Nat := 46

/-- The record at a position, if it reaches up to the locator and agrees with it, and if the directory
fits before it. -/
def Locator.recordAt? (data : ByteArray) (l : Locator) (i : Nat) : Option LargeRecord :=
  let size := quadAt data (i + 4)
  let r : LargeRecord := {
    position := i
    writer := wordAt data (i + 12)
    needed := wordAt data (i + 14)
    disk := longAt data (i + 16)
    directoryDisk := longAt data (i + 20)
    entries := quadAt data (i + 24)
    total := quadAt data (i + 32)
    offset := quadAt data (i + 48) }
  if hasSignature data i 6 6 && leastLargeSize ≤ size && i + 12 + size = l.position &&
      r.directoryDisk = l.directoryDisk && r.total * entrySize + r.offset ≤ i then some r
  else none

def Locator.firstRecord? (data : ByteArray) (l : Locator) (i : Nat) : Nat → Option LargeRecord
  | 0 => none
  | count + 1 =>
    match l.recordAt? data i with
    | some r => some r
    | none => firstRecord? data l (i + 1) count

def Locator.directory? (data : ByteArray) (l : Locator) : Option Directory :=
  if l.position ≤ l.offset || 1 < l.disks then none
  else
    match l.firstRecord? data l.offset (l.position - l.offset) with
    | none => none
    | some r =>
      let shift := r.position - l.offset
      if r.total < r.entries || r.writer < r.needed || r.disk ≠ r.directoryDisk then none
      else some ⟨r.offset + shift, shift, r.total⟩

def EndRecord.directory? (data : ByteArray) (r : EndRecord) : Option Directory :=
  match r.locator? data with
  | some l => l.directory? data
  | none => r.smallDirectory? data

end ClassListing.Zip
