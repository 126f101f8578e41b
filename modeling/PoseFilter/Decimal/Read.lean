import PoseFilter.Decimal.Shortest

/-!
# Reading numbers

The reader of decimals splits a text into sign, digits and exponent and rounds the number they
stand for to the nearest double.  It accepts what a command line accepts: a digit on at least one
side of the point, an exponent, and the words for infinity and for what is not a number in any
case.
-/

namespace PoseFilter

namespace Decimal

/-- The digits at the start of a text and what follows them. -/
def digitsOf (cs : List Char) : List Char × List Char := cs.span Char.isDigit

/-- The number that a run of digits stands for. -/
def natOf (cs : List Char) : Nat := cs.foldl (fun n c => 10 * n + (c.toNat - '0'.toNat)) 0

/-- A sign at the start of a text, true for minus, and what follows it. -/
def signOf : List Char → Bool × List Char
  | '-' :: cs => (true, cs)
  | '+' :: cs => (false, cs)
  | cs => (false, cs)

/-- The double nearest to a decimal.  Exponents far outside the range of doubles are cut off before
the power of ten is formed. -/
def toFloat (d : Decimal) : Float :=
  let size := d.exponent + (toString d.digits).length
  let x : Float :=
    if d.digits = 0 ∨ size < -400 then 0
    else if 400 < size then 1.0 / 0.0
    else if 0 ≤ d.exponent then Float.ofScientific d.digits false d.exponent.toNat
    else Float.ofScientific d.digits true (-d.exponent).toNat
  if d.negative then -x else x

/-- The exponent at the end of a number, 0 if there is none. -/
def exponentOf? : List Char → Option Int
  | [] => some 0
  | c :: cs =>
    if c = 'e' ∨ c = 'E' then
      let (minus, cs) := signOf cs
      let (ds, rest) := digitsOf cs
      if ds.isEmpty ∨ !rest.isEmpty then none
      else some (if minus then -(natOf ds : Int) else natOf ds)
    else none

/-- A decimal number without a sign in front. -/
def unsigned? (negative : Bool) (cs : List Char) : Option Decimal := do
  let (whole, rest) := digitsOf cs
  let (fraction, rest) :=
    match rest with
    | '.' :: cs => digitsOf cs
    | cs => ([], cs)
  if whole.isEmpty ∧ fraction.isEmpty then none
  let e ← exponentOf? rest
  return ⟨negative, natOf (whole ++ fraction), e - fraction.length⟩

/-- The double that a text stands for. -/
def parse? (s : String) : Option Float :=
  let (negative, cs) := signOf s.toList
  let word := String.ofList (cs.map Char.toLower)
  if word = "inf" ∨ word = "infinity" then
    some (if negative then -(1.0 / 0.0) else 1.0 / 0.0)
  else if word = "nan" then some (0.0 / 0.0)
  else (unsigned? negative cs).map toFloat

/-- The natural number below a bound that a text stands for: digits with at most a plus sign in
front. -/
def parseNat? (bound : Nat) (s : String) : Option Nat :=
  let cs := match s.toList with
    | '+' :: cs => cs
    | cs => cs
  if cs.isEmpty ∨ !cs.all Char.isDigit ∨ bound ≤ natOf cs then none else some (natOf cs)

end Decimal

end PoseFilter
