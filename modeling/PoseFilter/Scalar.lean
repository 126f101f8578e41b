/-!
# Scalars

The filter is written once, over any type of numbers with the operations of this file.  The
program runs on IEEE doubles (`PoseFilter.Scalar.Floating`); read over the real numbers, the same
definitions are the exact filter.

Comparisons are propositions with a decision procedure, so a branch `if a < b` is the same text in
both readings.  On doubles every comparison with NaN is false, and the definitions of this library
are written with that in mind: `¬ 0 < x` is not the same as `x ≤ 0`.
-/

namespace PoseFilter

/-- Numbers with the arithmetic, the comparisons and the elementary functions of the filter. -/
class Scalar (α : Type) extends Add α, Sub α, Mul α, Div α, Neg α, Zero α, One α, NatCast α,
    IntCast α, OfScientific α, LT α, LE α where
  /-- Strict comparison can be decided. -/
  decLt : ∀ a b : α, Decidable (a < b)
  /-- Comparison can be decided. -/
  decLe : ∀ a b : α, Decidable (a ≤ b)
  /-- The square root. -/
  sqrt : α → α
  /-- The sine of an angle in radians. -/
  sin : α → α
  /-- The cosine of an angle in radians. -/
  cos : α → α
  /-- The angle in `[-π/2, π/2]` with the given sine. -/
  asin : α → α
  /-- The angle of the point with ordinate `y` and abscissa `x`, as `atan2 y x`. -/
  atan2 : α → α → α
  /-- The power `pow base exponent`. -/
  pow : α → α → α
  /-- Half the circumference of the unit circle. -/
  pi : α
  /-- The angle below which `sin θ / θ` is replaced by its series at this precision. -/
  seriesCutoff : α
  /-- Neither infinite nor undefined. -/
  isFinite : α → Bool
  /-- The nearest natural number, a half going up, 0 below zero. -/
  roundNat : α → Nat

namespace Scalar

variable {α : Type} [Scalar α]

instance (priority := low) (a b : α) : Decidable (a < b) := Scalar.decLt a b

instance (priority := low) (a b : α) : Decidable (a ≤ b) := Scalar.decLe a b

/-- The larger of two numbers; an undefined operand is ignored (it alone fails `a ≤ a`). -/
def greater (a b : α) : α :=
  if a < b then b else if a ≤ a then a else b

/-- The distance from zero. -/
def magnitude (a : α) : α :=
  if a < 0 then -a else a

/-- The value of an undefined operation. -/
def undefined : α := 0 / 0

/-- Degrees to radians. -/
def toRadians (a : α) : α := a * (pi / 180.0)

/-- Radians to degrees. -/
def toDegrees (a : α) : α := a * (180.0 / pi)

end Scalar

end PoseFilter
