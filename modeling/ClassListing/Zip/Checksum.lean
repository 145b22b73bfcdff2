/-!
The checksum of archives: the remainder of a division of polynomials over two elements, with all
bits in reverse order.
-/

namespace ClassListing.Zip

/-- The divisor without its highest term. -/
def divisor : UInt32 := 0xEDB88320

def shiftRemainder (r : UInt32) : UInt32 :=
  if r &&& 1 = 1 then (r >>> 1) ^^^ divisor else r >>> 1

def addByte (r : UInt32) (b : UInt8) : UInt32 :=
  Nat.repeat shiftRemainder 8 (r ^^^ b.toUInt32)

def checksum (bytes : List UInt8) : Nat :=
  (bytes.foldl addByte 0xFFFFFFFF ^^^ 0xFFFFFFFF).toNat

end ClassListing.Zip
