import PoseFilter.Vec3

/-!
# Quaternions

Orientations are unit quaternions: `q` and `-q` turn space the same way, and the inverse of a unit
quaternion is its conjugate.  Whether a quaternion is a unit is not part of the type; every
operation of the filter that composes rotations ends in `normalized`.
-/

namespace PoseFilter

/-- A quaternion with scalar part `w` and vector part `(x, y, z)`. -/
@[ext]
structure Quaternion (α : Type) where
  w : α
  x : α
  y : α
  z : α
  deriving BEq

namespace Quaternion

variable {α : Type} [Scalar α]

/-- The rotation by nothing. -/
def identity : Quaternion α := ⟨1, 0, 0, 0⟩

/-- A quaternion from its scalar and its vector part. -/
def ofParts (w : α) (v : Vec3 α) : Quaternion α := ⟨w, v.x, v.y, v.z⟩

/-- The vector part. -/
def imag (q : Quaternion α) : Vec3 α := ⟨q.x, q.y, q.z⟩

/-- The Hamilton product: first turn by the right factor, then by the left one. -/
instance : Mul (Quaternion α) :=
  ⟨fun a b =>
    ⟨a.w * b.w - a.x * b.x - a.y * b.y - a.z * b.z,
     a.w * b.x + a.x * b.w + a.y * b.z - a.z * b.y,
     a.w * b.y - a.x * b.z + a.y * b.w + a.z * b.x,
     a.w * b.z + a.x * b.y - a.y * b.x + a.z * b.w⟩⟩

instance : Neg (Quaternion α) := ⟨fun q => ⟨-q.w, -q.x, -q.y, -q.z⟩⟩

/-- The conjugate, which undoes a unit quaternion. -/
def conj (q : Quaternion α) : Quaternion α := ⟨q.w, -q.x, -q.y, -q.z⟩

/-- The sum of the squared components. -/
def normSq (q : Quaternion α) : α := q.w * q.w + q.x * q.x + q.y * q.y + q.z * q.z

/-- The quaternion divided by its length. -/
def normalized (q : Quaternion α) : Quaternion α :=
  let n := Scalar.sqrt q.normSq
  ⟨q.w / n, q.x / n, q.y / n, q.z / n⟩

/-- No component is infinite or undefined. -/
def isFinite (q : Quaternion α) : Bool :=
  Scalar.isFinite q.w && Scalar.isFinite q.x && Scalar.isFinite q.y && Scalar.isFinite q.z

omit [Scalar α] in
/-- The components, scalar part first. -/
def toList (q : Quaternion α) : List α := [q.w, q.x, q.y, q.z]

end Quaternion

end PoseFilter
