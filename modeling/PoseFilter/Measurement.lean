import PoseFilter.PoseState

/-!
# Measurements

A measurement observes some function of the state.  Its values need not form a vector space (an
orientation is a quaternion), so a `MeasurementModel` brings its own difference of two values, a
column as long as the measurement's dimension.

The four measurements of a rigid body are built here; a `Reading` is one of them as data, with the
covariance of its noise, and a `Message` says which body it is of, which sensor took it and when.
-/

namespace PoseFilter

/-- An observation `z = h(x) + noise` of a state. -/
structure MeasurementModel (S V α : Type) where
  /-- The dimension of the space of differences. -/
  dim : Nat
  /-- The observed value. -/
  measured : V
  /-- The value `h(x)` that a state would give without noise. -/
  predict : S → V
  /-- The difference of two values, a column of length `dim`. -/
  difference : V → V → Array α
  /-- The covariance of the noise, a square matrix of side `dim`. -/
  covariance : S → Grid α

/-- The observed value minus a predicted one. -/
def MeasurementModel.residual {S V α : Type} (model : MeasurementModel S V α) (predicted : V) :
    Array α :=
  model.difference model.measured predicted

namespace Measurement

variable {α : Type} [Scalar α]

omit [Scalar α] in
/-- The components of a vector as a column. -/
def components (v : Vec3 α) : Array α := #[v.x, v.y, v.z]

/-- A covariance with the given variances. -/
def variances (v : Vec3 α) : Mat α 3 3 :=
  Mat.diagonal #v[v.x, v.y, v.z]

/-- The covariance of a pose with one variance for position and one for rotation. -/
def poseVariances (position orientation : α) : Mat α 6 6 :=
  Mat.ofFn fun i j => if i = j then (if i.val < 3 then position else orientation) else 0

/-- The observation of a position. -/
def position (value : Vec3 α) (noise : Mat α 3 3) : MeasurementModel (PoseState α) (Vec3 α) α where
  dim := 3
  measured := value
  predict := PoseState.position
  difference := fun a b => components (a - b)
  covariance := fun _ => noise.toGrid

/-- The observation of an angular velocity. -/
def angularVelocity (value : Vec3 α) (noise : Mat α 3 3) :
    MeasurementModel (PoseState α) (Vec3 α) α where
  dim := 3
  measured := value
  predict := PoseState.angularVelocity
  difference := fun a b => components (a - b)
  covariance := fun _ => noise.toGrid

/-- The observation of an orientation; the difference is the rotation vector between the two, the
short way round. -/
def orientation (value : Quaternion α) (noise : Mat α 3 3) :
    MeasurementModel (PoseState α) (Quaternion α) α where
  dim := 3
  measured := value
  predict := PoseState.orientation
  difference := fun a b => components (Rotation.difference a b)
  covariance := fun _ => noise.toGrid

/-- The observation of a whole pose: position first, then rotation. -/
def pose (value : Pose α) (noise : Mat α 6 6) : MeasurementModel (PoseState α) (Pose α) α where
  dim := 6
  measured := value
  predict := PoseState.pose
  difference := fun a b =>
    components (a.position - b.position) ++
      components (Rotation.difference a.orientation b.orientation)
  covariance := fun _ => noise.toGrid

end Measurement

/-- One observation of a body with the covariance of its noise. -/
inductive Reading (α : Type)
  /-- The orientation in the world frame; the covariance is over the rotation vector. -/
  | orientation (value : Quaternion α) (covariance : Mat α 3 3)
  /-- The position. -/
  | position (value : Vec3 α) (covariance : Mat α 3 3)
  /-- The pose; the covariance is over position, then rotation vector. -/
  | pose (value : Pose α) (covariance : Mat α 6 6)
  /-- The angular velocity in the world frame. -/
  | angularVelocity (value : Vec3 α) (covariance : Mat α 3 3)

/-- The name of the kind of a reading. -/
def Reading.kind {α : Type} : Reading α → String
  | orientation _ _ => "orientation"
  | position _ _ => "position"
  | pose _ _ => "pose"
  | angularVelocity _ _ => "angular_velocity"

/-- A reading on its way to a tracker. -/
structure Message (α : Type) where
  body : BodyHandle
  sensor : SensorHandle
  /-- The time of the reading in seconds. -/
  timestamp : α
  reading : Reading α

end PoseFilter
