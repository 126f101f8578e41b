import PoseFilter.Quaternion

/-!
# Rotation vectors and quaternions

The exponential and the logarithm that connect the flat space in which the filter computes with
unit quaternions, so that an orientation is corrected by adding a 3-vector.

`exp` and `ln` are the plain maps of quaternions: `exp v` has scalar part `cos |v|` and so turns
space by `2 |v|`.  The filter works with rotation vectors (axis times angle), and `ofVector` and
`toVector` carry the factor of two.

Both maps divide by a sine.  Near zero `exp` uses the series of `sin θ / θ` and `ln` the series of
`θ / sin θ`.
-/

namespace PoseFilter

namespace Rotation

variable {α : Type} [Scalar α]

open Scalar

/-- `sin θ / θ`, and its series to second order for every angle below the cutoff. -/
def sinc (θ : α) : α :=
  if θ < seriesCutoff then 1 - θ * θ / 6.0 else sin θ / θ

/-- The series of `θ / sin θ` about zero, to sixth order. -/
def cscSeries (θ : α) : α :=
  let θ2 := θ * θ
  let θ4 := θ2 * θ2
  let θ6 := θ4 * θ2
  1 + θ2 / 6.0 + 7.0 * θ4 / 360.0 + 31.0 * θ6 / 15120.0

/-- The length of the vector part below which the logarithm takes the series. -/
def logSeriesCutoff : α := 1e-4

/-- The exponential of a pure quaternion, a unit quaternion. -/
def exp (v : Vec3 α) : Quaternion α :=
  let θ := sqrt (v.dot v)
  (Quaternion.ofParts (cos θ) (v.scale (sinc θ))).normalized

/-- The factor between the vector part of a unit quaternion and its logarithm. -/
def logFactor (sine w : α) : α :=
  let φ := atan2 sine w
  if sine < logSeriesCutoff then cscSeries φ else φ / sin φ

/-- The logarithm of a unit quaternion. -/
def ln (q : Quaternion α) : Vec3 α :=
  q.imag.scale (logFactor (sqrt (q.imag.dot q.imag)) q.w)

/-- The logarithm of whichever of `q` and `-q` has a scalar part that is not negative: the short
way round. -/
def shortLn (q : Quaternion α) : Vec3 α :=
  if q.w < 0 then ln (-q) else ln q

/-- The unit quaternion of a rotation vector. -/
def ofVector (r : Vec3 α) : Quaternion α := exp (r.scale 0.5)

/-- The rotation vector, of angle at most `π`, of a unit quaternion. -/
def toVector (q : Quaternion α) : Vec3 α := (shortLn q).scale 2.0

/-- The rotation vector that takes `b` onto `a`: `a = ofVector (difference a b) * b`. -/
def difference (a b : Quaternion α) : Vec3 α := toVector (a * b.conj)

/-- The angle of the rotation between two orientations. -/
def angle (a b : Quaternion α) : α := (difference a b).norm

/-! ### Roll, pitch and yaw -/

/-- The unit quaternion of a roll, then a pitch, then a yaw about the fixed axes. -/
def ofEuler (roll pitch yaw : α) : Quaternion α :=
  let sr := sin (roll * 0.5)
  let cr := cos (roll * 0.5)
  let sp := sin (pitch * 0.5)
  let cp := cos (pitch * 0.5)
  let sy := sin (yaw * 0.5)
  let cy := cos (yaw * 0.5)
  ⟨cr * cp * cy + sr * sp * sy,
   sr * cp * cy - cr * sp * sy,
   cr * sp * cy + sr * cp * sy,
   cr * cp * sy - sr * sp * cy⟩

/-- Roll, pitch and yaw of a unit quaternion, read off its rotation matrix.  With the pitch at a
right angle only one combination of roll and yaw is determined, and the yaw is taken to be 0. -/
def toEuler (q : Quaternion α) : Vec3 α :=
  let ww := q.w * q.w
  let ii := q.x * q.x
  let jj := q.y * q.y
  let kk := q.z * q.z
  let ij := q.x * q.y * 2.0
  let wk := q.w * q.z * 2.0
  let wj := q.w * q.y * 2.0
  let ik := q.x * q.z * 2.0
  let jk := q.y * q.z * 2.0
  let wi := q.w * q.x * 2.0
  let m20 := ik - wj
  if magnitude m20 < 1 then
    let pitch := -asin m20
    let c := cos pitch
    ⟨atan2 ((wi + jk) / c) ((ww - ii - jj + kk) / c), pitch,
      atan2 ((wk + ij) / c) ((ww + ii - jj - kk) / c)⟩
  else if m20 ≤ -1 then
    ⟨atan2 (ij - wk) (wj + ik), pi / 2.0, 0⟩
  else
    ⟨-atan2 (ij - wk) (-(wj + ik)), -(pi / 2.0), 0⟩

end Rotation

end PoseFilter
