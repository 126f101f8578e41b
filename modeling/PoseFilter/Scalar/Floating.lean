import PoseFilter.Scalar

/-!
# Floating-point scalars

IEEE doubles, on which the program runs, and single precision, which the rotation maps also
support.  The two differ only in the angle at which `sin θ / θ` gives way to its series.
-/

namespace PoseFilter

namespace Scalar

instance : Scalar Float where
  zero := 0
  one := 1
  natCast := Float.ofNat
  intCast := Float.ofInt
  decLt := fun a b => inferInstanceAs (Decidable (a < b))
  decLe := fun a b => inferInstanceAs (Decidable (a ≤ b))
  sqrt := Float.sqrt
  sin := Float.sin
  cos := Float.cos
  asin := Float.asin
  atan2 := Float.atan2
  pow := Float.pow
  pi := 3.141592653589793
  seriesCutoff := 1e-13
  isFinite := Float.isFinite
  roundNat := fun x => x.round.toUInt64.toNat

instance : Scalar Float32 where
  zero := 0
  one := 1
  natCast := Float32.ofNat
  intCast := Float32.ofInt
  decLt := fun a b => inferInstanceAs (Decidable (a < b))
  decLe := fun a b => inferInstanceAs (Decidable (a ≤ b))
  sqrt := Float32.sqrt
  sin := Float32.sin
  cos := Float32.cos
  asin := Float32.asin
  atan2 := Float32.atan2
  pow := Float32.pow
  pi := 3.1415927
  seriesCutoff := 1e-6
  isFinite := Float32.isFinite
  roundNat := fun x => x.round.toUInt64.toNat

end Scalar

end PoseFilter
