/-!
The shortest decimal numeral that reads back as a given binary number. A positive number
`m * 2 ^ q` owns the reals nearer to it than to its neighbours; of the decimals with the fewest
digits among them the nearest is taken.
-/

namespace ClassListing.Decimal

structure Fraction where
  num : Nat
  den : Nat

def Fraction.ofBinary (n : Nat) (q : Int) : Fraction :=
  if 0 ≤ q then ⟨n * Nat.pow 2 q.toNat, 1⟩ else ⟨n, Nat.pow 2 (-q).toNat⟩

def Fraction.inUnits (f : Fraction) (e : Int) : Fraction :=
  if 0 ≤ e then ⟨f.num, f.den * Nat.pow 10 e.toNat⟩ else ⟨f.num * Nat.pow 10 (-e).toNat, f.den⟩

def Fraction.floor (f : Fraction) : Nat := f.num / f.den

/-- The largest `e` with `10 ^ e` at most the fraction, found from a first guess that is too
high by at most the fuel. -/
def Fraction.magnitude (f : Fraction) (guess : Int) : Nat → Int
  | 0 => guess
  | fuel + 1 => if 1 ≤ (f.inUnits guess).floor then guess else f.magnitude (guess - 1) fuel

structure Numeral where
  digits : Nat
  exponent : Int

/-- The reals that round to a binary number, in quarters of its last place. -/
structure Interval where
  low : Fraction
  value : Fraction
  high : Fraction
  closed : Bool

/-- The interval of `m * 2 ^ q`. Below the least number of a binade the neighbour is twice as near;
the ends round to the even significand. -/
def Interval.ofBinary (m : Nat) (q : Int) (binadeStart : Bool) : Interval where
  low := Fraction.ofBinary (if binadeStart then 4 * m - 1 else 4 * m - 2) (q - 2)
  value := Fraction.ofBinary (4 * m) (q - 2)
  high := Fraction.ofBinary (4 * m + 2) (q - 2)
  closed := m % 2 = 0

def Interval.holds (i : Interval) (e : Int) (n : Nat) : Bool :=
  let low := i.low.inUnits e
  let high := i.high.inUnits e
  if i.closed then low.num ≤ n * low.den && n * high.den ≤ high.num
  else low.num < n * low.den && n * high.den < high.num

/-- The numeral in units of `10 ^ e` nearest to the value, if it lies in the interval. Of two that
are equally near the even one is taken. -/
def Interval.onGrid (i : Interval) (e : Int) : Option Numeral :=
  let v := i.value.inUnits e
  let n := v.floor
  let rest := 2 * (v.num % v.den)
  let below := i.holds e n && 0 < n
  let above := i.holds e (n + 1)
  if below && above then
    if rest < v.den || (rest = v.den && n % 2 = 0) then some ⟨n, e⟩ else some ⟨n + 1, e⟩
  else if below then some ⟨n, e⟩
  else if above then some ⟨n + 1, e⟩
  else none

/-- Tries ever finer grids; seventeen digits always suffice. -/
def Interval.shortest (i : Interval) (e : Int) : Nat → Numeral
  | 0 => ⟨(i.value.inUnits e).floor, e⟩
  | fuel + 1 => (i.onGrid e).getD (i.shortest (e - 1) fuel)

def Numeral.trimmed (d : Numeral) : Nat → Numeral
  | 0 => d
  | fuel + 1 =>
    if d.digits % 10 = 0 && 0 < d.digits then
      Numeral.trimmed ⟨d.digits / 10, d.exponent + 1⟩ fuel
    else d

def shortest (m : Nat) (q : Int) (binadeStart : Bool) : Numeral :=
  let i := Interval.ofBinary m q binadeStart
  (i.shortest (i.value.magnitude 310 700) 17).trimmed 20

/-- How a numeral is laid out: positional between the two bounds of the exponent of its first
digit, else with one digit before the point and an exponent with its sign. -/
structure Layout where
  leastPositional : Int
  mostPositional : Int

def Numeral.layout (l : Layout) (d : Numeral) : String :=
  let ds := Nat.toDigits 10 d.digits
  let lead := d.exponent + ds.length - 1
  let text : List Char :=
    if l.leastPositional ≤ lead && lead ≤ l.mostPositional then
      if 0 ≤ d.exponent then ds ++ List.replicate d.exponent.toNat '0' ++ ['.', '0']
      else if 0 ≤ lead then
        ds.take (lead.toNat + 1) ++ '.' :: ds.drop (lead.toNat + 1)
      else ['0', '.'] ++ List.replicate (-lead - 1).toNat '0' ++ ds
    else
      ds.take 1 ++ (if ds.length = 1 then [] else '.' :: ds.drop 1) ++
        (if lead < 0 then ['e', '-'] else ['e', '+']) ++ Nat.toDigits 10 lead.natAbs
  String.ofList text

def ofFloat (l : Layout) (x : Float) : String :=
  let bits := x.toBits.toNat
  let sign := if bits / Nat.pow 2 63 = 1 then "-" else ""
  let e : Nat := bits / Nat.pow 2 52 % 2048
  let fraction : Nat := bits % Nat.pow 2 52
  let body :=
    if e = 0 then
      if fraction = 0 then "0.0" else (shortest fraction (-1074) false).layout l
    else
      (shortest (Nat.pow 2 52 + fraction) (e - 1075) (fraction = 0 && 1 < e)).layout l
  sign ++ body

end ClassListing.Decimal
