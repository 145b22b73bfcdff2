/-!
Numbers and signatures in the data of an archive, the low byte first.
-/

namespace ClassListing.Zip

/-! ## By position -/

/-- Zero stands for every byte beyond the end. -/
def byteAt (data : ByteArray) (i : Nat) : Nat := if h : i < data.size then data[i].toNat else 0

def wordAt (data : ByteArray) (i : Nat) : Nat := byteAt data i + 256 * byteAt data (i + 1)

def longAt (data : ByteArray) (i : Nat) : Nat := wordAt data i + 65536 * wordAt data (i + 2)

def quadAt (data : ByteArray) (i : Nat) : Nat := longAt data i + 4294967296 * longAt data (i + 4)

def hasSignature (data : ByteArray) (i a b : Nat) : Bool :=
  i + 4 ≤ data.size && byteAt data i = 0x50 && byteAt data (i + 1) = 0x4B &&
    byteAt data (i + 2) = a && byteAt data (i + 3) = b

def slice (data : ByteArray) (start stop : Nat) : List UInt8 :=
  (data.extract start stop).data.toList

/-! ## From the front -/

abbrev Bytes := List UInt8

def numberOf (bytes : Bytes) : Nat := bytes.foldr (fun b n => b.toNat + 256 * n) 0

/-- The first bytes and the rest; `none` if there are too few. -/
def take? (count : Nat) (s : Bytes) : Option (Bytes × Bytes) :=
  if s.length < count then none else some (s.splitAt count)

end ClassListing.Zip
