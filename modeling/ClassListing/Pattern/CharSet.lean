/-!
Sets of characters as ranges of code points. The ranges are in increasing order and do not touch, so a
set is empty exactly if it has no range.
-/

namespace ClassListing.Pattern

abbrev CharSet := List (Nat × Nat)

namespace CharSet

def lastCode : Nat := 0x10FFFF

def contains (s : CharSet) (c : Char) : Bool :=
  s.any fun (low, high) => low ≤ c.toNat && c.toNat ≤ high

def single (c : Char) : CharSet := [(c.toNat, c.toNat)]

def insert (low high : Nat) : CharSet → CharSet
  | [] => [(low, high)]
  | (a, b) :: s =>
    if high + 1 < a then (low, high) :: (a, b) :: s
    else if b + 1 < low then (a, b) :: insert low high s
    else insert (min low a) (max high b) s

def union (s t : CharSet) : CharSet := t.foldl (fun s r => insert r.1 r.2 s) s

def gaps : Nat → CharSet → CharSet
  | low, [] => if low ≤ lastCode then [(low, lastCode)] else []
  | low, (a, b) :: s => if low < a then (low, a - 1) :: gaps (b + 1) s else gaps (b + 1) s

def holdsSurrogates (r : Nat × Nat) : Bool := 0xD800 ≤ r.1 && r.2 ≤ 0xDFFF

def complement (s : CharSet) : CharSet := (gaps 0 s).filter fun r => !holdsSurrogates r

def full : CharSet := [(0, lastCode)]

def inter (s t : CharSet) : CharSet := complement (union (complement s) (complement t))

def diff (s t : CharSet) : CharSet := inter s (complement t)

def symmDiff (s t : CharSet) : CharSet := diff (union s t) (inter s t)

def isAscii (s : CharSet) : Bool := s.all fun r => r.2 < 0x80

def withBothCases (s : CharSet) : CharSet :=
  let upper := (inter s [(0x61, 0x7A)]).map fun r => (r.1 - 32, r.2 - 32)
  let lower := (inter s [(0x41, 0x5A)]).map fun r => (r.1 + 32, r.2 + 32)
  union s (union upper lower)

def only? (s : CharSet) : Option Char :=
  match s with
  | [(a, b)] => if a = b then some (Char.ofNat a) else none
  | _ => none

end CharSet

end ClassListing.Pattern
