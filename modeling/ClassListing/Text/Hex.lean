/-!
Hexadecimal numerals.
-/

namespace ClassListing.Text

def hexValue? (c : Char) : Option Nat :=
  if '0' ≤ c && c ≤ '9' then some (c.toNat - 48)
  else if 'a' ≤ c && c ≤ 'f' then some (c.toNat - 87)
  else if 'A' ≤ c && c ≤ 'F' then some (c.toNat - 55)
  else none

def hexNumber? (n : Nat) : List Char → Option Nat
  | [] => some n
  | c :: cs => (hexValue? c).bind fun d => hexNumber? (16 * n + d) cs

/-- Lower case digits without leading zeros. -/
def hexDigits (n : Nat) : List Char := Nat.toDigits 16 n

theorem hexValue?_hexDigit : ∀ n < 16, hexValue? (Nat.digitChar n) = some n := by decide

end ClassListing.Text
