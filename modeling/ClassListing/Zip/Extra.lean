import ClassListing.Text.Utf8
import ClassListing.Zip.Checksum
import ClassListing.Zip.Numbers

/-!
The extra data of a directory entry: blocks that add to the entry or replace what its fields say. A
block that is cut off ends the extra data, with what it has said so far; a block that
contradicts itself or the entry makes the whole directory unusable.
-/

namespace ClassListing.Zip

structure Header where
  name : String
  /-- The bytes of the name, which a block with another name must know. -/
  nameBytes : Bytes
  comment : String
  method : Nat
  unpacked : Nat
  packed : Nat
  localOffset : Nat
  described : Bool

inductive Reading where
  | more (h : Header) (rest : Bytes)
  | ended (h : Header)
  | unusable

namespace Extra

/-! ## Large numbers -/

def elsewhere : Nat := 0xFFFFFFFF

/-- A block with numbers of sixty-four bits. It holds all three if it is long enough, else those whose
fields point elsewhere. -/
def large (length : Nat) (s : Bytes) (h : Header) : Reading :=
  let all : Bool := 24 ≤ length
  let number (wanted : Bool) (used : Nat) (s : Bytes) : Option (Option Nat × Nat × Bytes) :=
    if wanted then (take? 8 s).map fun (a, r) => (some (numberOf a), used + 8, r)
    else some (none, used, s)
  match number (all || h.unpacked = elsewhere) 0 s with
  | none => .ended h
  | some (unpacked, used, s) =>
    let h := { h with unpacked := unpacked.getD h.unpacked }
    match number (all || h.packed = elsewhere) used s with
    | none => .ended h
    | some (packed, used, s) =>
      let h := { h with packed := packed.getD h.packed }
      match number (all || h.localOffset = elsewhere) used s with
      | none => .ended h
      | some (localOffset, used, s) =>
        let h := { h with localOffset := localOffset.getD h.localOffset }
        if length < used then .unusable
        else
          match take? (length - used) s with
          | none => .ended h
          | some (_, rest) => .more h rest

/-! ## Times -/

def fineTimes (length : Nat) (s : Bytes) (h : Header) : Reading :=
  if length ≠ 32 then .unusable
  else
    match take? 6 s with
    | none => .ended h
    | some (start, s) =>
      if numberOf (start.drop 4) ≠ 1 then .unusable
      else
        match take? 2 s with
        | none => .ended h
        | some (size, s) =>
          if numberOf size ≠ 24 then .unusable
          else
            match take? 24 s with
            | none => .ended h
            | some (_, rest) => .more h rest

def ones (b : Nat) : Nat := ((List.range 8).filter b.testBit).length

/-- Up to three times of thirty-two bits. A byte says which; the block may hold the first alone all
the same. -/
def times (length : Nat) (s : Bytes) (h : Header) : Reading :=
  match take? 1 s with
  | none => .ended h
  | some (flags, s) =>
    let flags := numberOf flags
    if length ≠ 5 && length ≠ 1 + 4 * ones flags then .unusable
    else if 8 ≤ flags then .unusable
    else
      match take? (length - 1) s with
      | none => .ended h
      | some (_, rest) => .more h rest

/-! ## Encryption -/

def encryption (length : Nat) (s : Bytes) (h : Header) : Reading :=
  if length ≠ 7 then .unusable
  else
    match take? 7 s with
    | none => .ended h
    | some (block, rest) =>
      let version := numberOf (block.take 2)
      let vendor := numberOf ((block.drop 2).take 2)
      let strength := numberOf ((block.drop 4).take 1)
      if vendor ≠ 0x4541 || (version ≠ 1 && version ≠ 2) || strength < 1 || 3 < strength then
        .unusable
      else .more { h with described := true, method := numberOf (block.drop 5) } rest

/-! ## Texts -/

structure Replacement where
  checksum : Nat
  content : Bytes

def replacement? (length : Nat) (s : Bytes) : Option (Except Unit (Replacement × Bytes)) :=
  match take? 5 s with
  | none => none
  | some (start, s) =>
    if length < 5 then some (.error ())
    else (take? (length - 5) s).map fun (content, rest) =>
      .ok (⟨numberOf (start.drop 1), content⟩, rest)

def Replacement.text? (r : Replacement) (old : Bytes) : Option String :=
  if r.checksum = Zip.checksum old then Utf8.decode? r.content else none

def newComment (length : Nat) (s : Bytes) (h : Header) : Reading :=
  match replacement? length s with
  | none => .ended h
  | some (.error ()) => .unusable
  | some (.ok (r, rest)) =>
    match r.text? h.comment.toUTF8.data.toList with
    | none => .unusable
    | some comment => .more { h with comment } rest

def newName (length : Nat) (s : Bytes) (h : Header) : Reading :=
  match replacement? length s with
  | none => .ended h
  | some (.error ()) => .unusable
  | some (.ok (r, rest)) =>
    match r.text? h.nameBytes with
    | none => .unusable
    | some name => .more { h with name, nameBytes := r.content } rest

/-! ## Blocks -/

def block (kind length : Nat) (s : Bytes) (h : Header) : Reading :=
  if kind = 0x0001 then large length s h
  else if kind = 0x000A then fineTimes length s h
  else if kind = 0x9901 then encryption length s h
  else if kind = 0x5455 then times length s h
  else if kind = 0x6375 then newComment length s h
  else if kind = 0x7075 then newName length s h
  else
    match take? length s with
    | none => .ended h
    | some (_, rest) => .more h rest

/-- Reads all blocks. Every block takes at least one byte of the bound. -/
def blocks : Bytes → Bytes → Header → Option Header
  | [], _, h => some h
  | _ :: bound, s, h =>
    match take? 4 s with
    | none => some h
    | some (start, s) =>
      match block (numberOf (start.take 2)) (numberOf (start.drop 2)) s h with
      | .more h rest => blocks bound rest h
      | .ended h => some h
      | .unusable => none

end Extra

def Header.amended? (h : Header) (extra : Bytes) : Option Header := Extra.blocks extra extra h

end ClassListing.Zip
