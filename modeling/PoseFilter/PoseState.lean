import PoseFilter.Rotation
import PoseFilter.State

/-!
# The state of a rigid body

Position, orientation and the two velocities of a body, all in the world frame, with the covariance
of their error.  The tangent space has twelve axes in four blocks of three: position, rotation
vector (composed on the left of the orientation), velocity, angular velocity.
-/

namespace PoseFilter

/-- A position and an orientation. -/
structure Pose (α : Type) where
  position : Vec3 α
  orientation : Quaternion α
  deriving BEq

/-- Pose and velocities of one body with the covariance of their error. -/
structure PoseState (α : Type) where
  position : Vec3 α
  orientation : Quaternion α
  velocity : Vec3 α
  /-- The rate of the rotation vector, in radians per second. -/
  angularVelocity : Vec3 α
  covariance : Grid α

namespace PoseState

/-- The dimension of the tangent space. -/
def dim : Nat := 12

/-- Three successive entries of a tangent vector. -/
def block {α : Type} {n : Nat} (v : Column α n) (start : Nat) (h : start + 2 < n) : Vec3 α :=
  ⟨v[start], v[start + 1], v[start + 2]⟩

variable {α : Type} [Scalar α]

/-- The variance of every axis of a new state. -/
def initialVariance : α := 10.0

/-- The same variance on every axis of the tangent space. -/
def isotropic (variance : α) : Grid α := (Mat.scalar dim variance).toGrid

/-- A body at rest at the origin. -/
def initial : PoseState α where
  position := Vec3.zero
  orientation := Quaternion.identity
  velocity := Vec3.zero
  angularVelocity := Vec3.zero
  covariance := isotropic initialVariance

/-- The mean is kept, and every axis gets the same variance. -/
def resetCovariance (s : PoseState α) (variance : α) : PoseState α :=
  { s with covariance := isotropic variance }

omit [Scalar α] in
/-- Position and orientation. -/
def pose (s : PoseState α) : Pose α := ⟨s.position, s.orientation⟩

/-- The block of the covariance that belongs to position and rotation. -/
def poseCovariance (s : PoseState α) : Mat α 6 6 :=
  Mat.ofFn fun i j => (s.covariance.get? i j).getD 0

/-- The mean moved along a tangent vector: the flat parts are added, the rotation vector is
composed on the left of the orientation. -/
def retract (s : PoseState α) (δ : Column α dim) : PoseState α :=
  { s with
    position := s.position + block δ 0 (by decide)
    velocity := s.velocity + block δ 6 (by decide)
    angularVelocity := s.angularVelocity + block δ 9 (by decide)
    orientation := (Rotation.ofVector (block δ 3 (by decide)) * s.orientation).normalized }

/-- No component of the mean is infinite or undefined. -/
def meanIsFinite (s : PoseState α) : Bool :=
  s.position.isFinite && s.orientation.isFinite && s.velocity.isFinite &&
    s.angularVelocity.isFinite

instance : FilterState (PoseState α) α where
  dim := dim
  covariance := covariance
  withCovariance := fun s p => { s with covariance := p }
  retract := retract
  meanIsFinite := meanIsFinite

end PoseState

end PoseFilter
