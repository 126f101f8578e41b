import PoseFilter.Measurement
import PoseFilter.Random.Source
import PoseFilter.Simulation.Schedule
import PoseFilter.Simulation.Truth

/-!
# Simulated sensors

A sensor fires on a schedule and observes the true motion with normal noise.  What it draws from
the random source depends on its kind alone: a camera that can lose frames first draws whether it
does, and every frame that is kept costs three numbers for the position and three for the rotation,
whichever of the two is reported; a gyroscope costs three.
-/

namespace PoseFilter

/-- How a sensor observes. -/
inductive SensorModel (α : Type)
  /-- A camera with the standard deviations of position and rotation and the chance of losing a
  frame. -/
  | camera (output : CameraOutput) (positionNoise orientationNoise dropout : α)
  /-- A gyroscope with the standard deviation of its rate. -/
  | gyro (noise : α)

/-- A sensor of a run. -/
structure Sensor (α : Type) where
  name : String
  handle : SensorHandle
  schedule : Schedule α
  model : SensorModel α

namespace Sensor

section Create

variable {α : Type} [Scalar α]

/-- A standard deviation, which has to be finite. -/
def deviation (x : α) : Except (SimulationError α) α :=
  if Scalar.isFinite x then .ok x else .error .badNoise

/-- The sensor of a scenario, with its angles in radians. -/
def ofConfig (config : SensorConfig α) (handle : SensorHandle) :
    Except (SimulationError α) (Sensor α) := do
  let model ←
    match config with
    | .camera c => do
      let position ← deviation c.positionNoise
      let orientation ← deviation (Scalar.toRadians c.orientationNoiseDeg)
      pure (SensorModel.camera c.output position orientation c.dropout)
    | .gyro g => do pure (SensorModel.gyro (← deviation (Scalar.toRadians g.noiseDeg)))
  return ⟨config.name, handle, Schedule.ofRate config.rate, model⟩

end Create

section Observe

variable {α γ : Type} [Scalar α] [NoiseSource γ α]

/-- A normal number with the given deviation. -/
def sample (deviation : α) (source : γ) : α × γ :=
  let (z, source) := NoiseSource.gaussian source
  (0 + deviation * z, source)

/-- Three normal numbers as a vector. -/
def sample3 (deviation : α) (source : γ) : Vec3 α × γ :=
  let (x, source) := sample deviation source
  let (y, source) := sample deviation source
  let (z, source) := sample deviation source
  (⟨x, y, z⟩, source)

/-- The covariance of a camera's pose. -/
def poseNoise (positionVariance orientationVariance : α) : Mat α 6 6 :=
  Mat.ofFn fun i j =>
    (if i = j then 1 else 0) *
      (if 3 ≤ i.val ∧ 3 ≤ j.val then orientationVariance else positionVariance)

/-- Whether a frame is lost.  Without a chance of that nothing is drawn. -/
def loses (dropout : α) (source : γ) : Except (SimulationError α) (Bool × γ) :=
  if 0 < dropout then
    match NoiseSource.chance dropout source with
    | some r => .ok r
    | none => .error (.badProbability dropout)
  else .ok (false, source)

/-- What a sensor of a kind sees of the truth, if anything. -/
def look (model : SensorModel α) (truth : TrueState α) (source : γ) :
    Except (SimulationError α) (Option (Reading α) × γ) := do
  match model with
  | .camera output positionNoise orientationNoise dropout =>
    let (lost, source) ← loses dropout source
    if lost then return (none, source)
    let (shift, source) := sample3 positionNoise source
    let (turn, source) := sample3 orientationNoise source
    let position := truth.pose.position + shift
    let orientation := Rotation.ofVector turn * truth.pose.orientation
    let positionVariance := positionNoise * positionNoise
    let orientationVariance := orientationNoise * orientationNoise
    match output with
    | .orientation =>
      return (some (.orientation orientation (Mat.scalar 3 orientationVariance)), source)
    | .position => return (some (.position position (Mat.scalar 3 positionVariance)), source)
    | .pose =>
      return (some (.pose ⟨position, orientation⟩ (poseNoise positionVariance orientationVariance)),
        source)
  | .gyro noise =>
    let (shift, source) := sample3 noise source
    return (some (.angularVelocity (truth.angularVelocity + shift) (Mat.scalar 3 (noise * noise))),
      source)

/-- One observation of a body at a time, or none if the frame is lost. -/
def observe (s : Sensor α) (body : BodyHandle) (time : α) (truth : TrueState α) (source : γ) :
    Except (SimulationError α) (Option (Message α) × γ) := do
  let (reading, source) ← look s.model truth source
  return (reading.map fun r => ⟨body, s.handle, time, r⟩, source)

end Observe

end Sensor

end PoseFilter
