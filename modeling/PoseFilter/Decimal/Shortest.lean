/-!
# The shortest decimal of a double

A finite double is `m · 2^q`.  The real numbers that round to it form an interval around it, whose
ends belong to it exactly when `m` is even.  `Double.shortest` looks for a decimal in that interval
on coarser and then finer grids `10^k`: on the first grid with a hit it takes the point nearest to
the double.  So the digits are the fewest that read back as the same double, and of those the
nearest.  All comparisons are between natural numbers.
-/

namespace PoseFilter

/-- The decimal number `± digits · 10^exponent`. -/
structure Decimal where
  /-- Below zero, or zero with a minus sign. -/
  negative : Bool
  /-- The digits as one natural number. -/
  digits : Nat
  /-- The power of ten of the last digit. -/
  exponent : Int
  deriving BEq, Repr

namespace Double

/-- The sign, the integer `m` and the exponent `q` of a finite double `± m · 2^q`. -/
structure Parts where
  negative : Bool
  mantissa : Nat
  exponent : Int

/-- A double is not a number, infinite, or finite with its parts. -/
inductive Form
  | undefined
  | infinite (negative : Bool)
  | finite (parts : Parts)

/-- The place value of the bit in front of a double's fraction, `2^52`. -/
def leadingBit : Nat := 0x10000000000000

/-- The form of a double, read off its bits: one for the sign, eleven for the exponent, the rest for
the fraction. -/
def form (x : Float) : Form :=
  let bits : Nat := x.toBits.toNat
  let fraction : Nat := bits % leadingBit
  let biased : Nat := bits / leadingBit % 2048
  let negative : Bool := bits / leadingBit / 2048 = 1
  if biased = 2047 then
    if fraction = 0 then .infinite negative else .undefined
  else if biased = 0 then .finite ⟨negative, fraction, -1074⟩
  else .finite ⟨negative, fraction + leadingBit, (biased : Int) - 1075⟩

/-- A number `num / den` together with the ends `low / den` and `high / den` of an interval around
it. -/
structure Interval where
  num : Nat
  low : Nat
  high : Nat
  den : Nat
  /-- The ends belong to the interval. -/
  closed : Bool

/-- The numbers that round to `m · 2^q`.  At a power of two the gap below is half the gap above. -/
def interval (m : Nat) (q : Int) : Interval :=
  let low := if m = leadingBit ∧ -1074 < q then 4 * m - 1 else 4 * m - 2
  let up := Nat.pow 2 (q - 2).toNat
  { num := 4 * m * up, low := low * up, high := (4 * m + 2) * up
    den := Nat.pow 2 (2 - q).toNat, closed := m % 2 = 0 }

/-- The same numbers in units of `10^k`. -/
def Interval.inUnits (i : Interval) (k : Int) : Interval :=
  let up := Nat.pow 10 (-k).toNat
  { i with
    num := i.num * up, low := i.low * up, high := i.high * up
    den := i.den * Nat.pow 10 k.toNat }

/-- Whether an integer lies in the interval. -/
def Interval.holds (i : Interval) (d : Nat) : Bool :=
  if i.closed then i.low ≤ d * i.den ∧ d * i.den ≤ i.high
  else i.low < d * i.den ∧ d * i.den < i.high

/-- Of the two integers next to the number, the nearer one that lies in the interval. -/
def Interval.nearest? (i : Interval) : Option Nat :=
  let down := i.num / i.den
  let excess := i.num % i.den
  let pair := if 2 * excess ≤ i.den then [down, down + 1] else [down + 1, down]
  pair.find? i.holds

/-- The first hit on the grids `10^k`, `10^(k-1)`, …, trying `fuel` of them. -/
def search (i : Interval) : Nat → Int → Option (Nat × Int)
  | 0, _ => none
  | fuel + 1, k =>
    match (i.inUnits k).nearest? with
    | some d => some (d, k)
    | none => search i fuel (k - 1)

/-- Digits without the zeros at their end. -/
def strip : Nat → Nat → Int → Nat × Int
  | 0, d, e => (d, e)
  | fuel + 1, d, e => if d % 10 = 0 ∧ d ≠ 0 then strip fuel (d / 10) (e + 1) else (d, e)

/-- The fewest digits that read back as the double, and of those the nearest; zero has the one
digit 0.  Seventeen digits always suffice, and the first grid is at most two too coarse. -/
def shortest (p : Parts) : Decimal :=
  if p.mantissa = 0 then ⟨p.negative, 0, 0⟩
  else
    let start := (Int.fdiv ((p.mantissa.log2 + p.exponent) * 1233) 4096) + 2
    match search (interval p.mantissa p.exponent) 24 start with
    | some (d, k) =>
      let (d, k) := strip 24 d k
      ⟨p.negative, d, k⟩
    | none => ⟨p.negative, 0, 0⟩

/-- The quotient rounded to the nearest integer, a half to the even one. -/
def roundDiv (num den : Nat) : Nat :=
  let down := num / den
  let excess := 2 * (num % den)
  if excess < den then down
  else if den < excess then down + 1
  else if down % 2 = 0 then down else down + 1

/-- A finite double rounded to an integer number of units `10^k`, a half to the even one. -/
def roundedTo (k : Int) (p : Parts) : Nat :=
  roundDiv (p.mantissa * Nat.pow 2 p.exponent.toNat * Nat.pow 10 (-k).toNat)
    (Nat.pow 2 (-p.exponent).toNat * Nat.pow 10 k.toNat)

end Double

end PoseFilter
