import PoseFilter.Tracker.Config

/-!
# Scenarios

A scenario describes a simulated run: how long it lasts and in which steps, how the body moves,
which sensors watch it, and how its tracker is set up.  `Scenario.validate` says whether it can be
run; the first fault in the order of the sections is reported.
-/

namespace PoseFilter

/-- Time and chance of a run. -/
structure RunConfig (α : Type) where
  /-- The seed of the random stream. -/
  seed : UInt64
  /-- The length of the run in seconds. -/
  duration : α
  /-- The rate at which the tracker is brought up to date. -/
  stepRate : α
  /-- The time between two reports of the error. -/
  reportInterval : α
  deriving BEq

/-- The body and its motion. -/
structure BodyConfig (α : Type) where
  name : String
  /-- The pose at time zero. -/
  start : Pose α
  /-- The velocity in the world frame. -/
  linearVelocity : Vec3 α
  /-- The angular velocity in the world frame, in radians per second. -/
  angularVelocity : Vec3 α
  deriving BEq

/-- What a camera reports about the body. -/
inductive CameraOutput
  | orientation
  | position
  | pose
  deriving DecidableEq

/-- A camera that solves for the body's pose. -/
structure CameraConfig (α : Type) where
  name : String
  /-- Frames per second. -/
  rate : α
  output : CameraOutput
  /-- The standard deviation of the position on each axis. -/
  positionNoise : α
  /-- The standard deviation of the rotation vector on each axis, in degrees. -/
  orientationNoiseDeg : α
  /-- The chance that a frame is lost. -/
  dropout : α
  deriving BEq

/-- A gyroscope. -/
structure GyroConfig (α : Type) where
  name : String
  /-- Readings per second. -/
  rate : α
  /-- The standard deviation of the rate on each axis, in degrees per second. -/
  noiseDeg : α
  deriving BEq

/-- A sensor of the scenario. -/
inductive SensorConfig (α : Type)
  | camera (config : CameraConfig α)
  | gyro (config : GyroConfig α)
  deriving BEq

namespace SensorConfig

variable {α : Type}

/-- The name of the sensor. -/
def name : SensorConfig α → String
  | camera c => c.name
  | gyro g => g.name

/-- How often the sensor fires per second. -/
def rate : SensorConfig α → α
  | camera c => c.rate
  | gyro g => g.rate

/-- The word for the kind of the sensor. -/
def kind : SensorConfig α → String
  | camera _ => "Camera"
  | gyro _ => "Gyro"

end SensorConfig

/-- A simulated run. -/
structure Scenario (α : Type) where
  run : RunConfig α
  body : BodyConfig α
  sensors : List (SensorConfig α)
  tracker : TrackerConfig α
  deriving BEq

/-! ### What is standard -/

namespace Scenario

section Standard

variable {α : Type} [Scalar α]

/-- The standard noise of a camera's position. -/
def defaultPositionNoise : α := 0.002

/-- The standard noise of a camera's orientation, in degrees. -/
def defaultOrientationNoiseDeg : α := 0.5

/-- The standard noise of a gyroscope, in degrees per second. -/
def defaultGyroNoiseDeg : α := 0.5

/-- Ten seconds in a hundred steps each. -/
def standardRun : RunConfig α := ⟨0, 10.0, 100.0, 1⟩

/-- The pose at the origin. -/
def origin : Pose α := ⟨Vec3.zero, Quaternion.identity⟩

/-- A body that drifts along the first axis and turns about the third. -/
def standardBody : BodyConfig α where
  name := "handheld"
  start := origin
  linearVelocity := ⟨0.2, 0, 0⟩
  angularVelocity := ⟨0, 0, Scalar.toRadians 30.0⟩

/-- A camera that reports poses and a gyroscope. -/
def standardSensors : List (SensorConfig α) :=
  [.camera ⟨"camera", 30.0, .pose, defaultPositionNoise, defaultOrientationNoiseDeg, 0⟩,
   .gyro ⟨"gyro", 200.0, defaultGyroNoiseDeg⟩]

/-- The scenario that every document is laid over. -/
def standard : Scenario α := ⟨standardRun, standardBody, standardSensors, TrackerConfig.standard⟩

end Standard

end Scenario

/-! ### Errors -/

/-- Why a scenario cannot be run. -/
inductive ScenarioFault (α : Type)
  /-- A quantity has to be finite and above zero. -/
  | notFinitePositive (quantity : String) (value : α)
  /-- Nothing would be measured. -/
  | noSensors
  /-- The chance of losing a frame has to be a probability. -/
  | dropoutNotProbability (sensor : String) (value : α)

/-- Everything that can stop a simulation. -/
inductive SimulationError (α : Type)
  /-- There is no document at the path. -/
  | scenarioNotFound (path : String)
  /-- The document cannot be read, or says something other than a scenario. -/
  | unreadable
  /-- The scenario cannot be run. -/
  | invalidScenario (fault : ScenarioFault α)
  /-- The seed does not fit a document. -/
  | unprintable
  /-- A standard deviation is not finite. -/
  | badNoise
  /-- A draw with something that is no probability. -/
  | badProbability (value : α)
  /-- The tracker failed. -/
  | filter (error : FilterError α)

/-- The wording of a fault. -/
def ScenarioFault.message : ScenarioFault Float → String
  | notFinitePositive quantity value =>
    quantity ++ " must be finite and positive, got " ++ Layout.plain.text value
  | noSensors => "no sensors configured"
  | dropoutNotProbability sensor value =>
    "sensor '" ++ sensor ++ "' dropout_probability must lie in [0, 1], got " ++
      Layout.plain.text value

/-- The wording of an error. -/
def SimulationError.message : SimulationError Float → String
  | scenarioNotFound path => "scenario file not found: " ++ path
  | unreadable => "failed to load scenario"
  | invalidScenario fault => "invalid scenario: " ++ fault.message
  | unprintable => "failed to render scenario: out-of-range value for u64 type"
  | badNoise =>
    "invalid sensor noise: variation parameter is non-finite in (log)normal distribution"
  | badProbability value => "not a probability: " ++ Layout.plain.text value
  | filter error => error.message

/-! ### Validation -/

namespace Scenario

variable {α : Type} [Scalar α]

/-- A quantity is finite and above zero. -/
def checkPositive (quantity : String) (value : α) : Except (SimulationError α) Unit :=
  if Scalar.isFinite value ∧ 0 < value then .ok ()
  else .error (.invalidScenario (.notFinitePositive quantity value))

/-- A sensor can be simulated: its rate first, then its noise, then its dropout. -/
def checkSensor (s : SensorConfig α) : Except (SimulationError α) Unit := do
  let label := "sensor '" ++ s.name ++ "' "
  checkPositive (label ++ "rate") s.rate
  match s with
  | .camera c =>
    checkPositive (label ++ "position_noise_stddev") c.positionNoise
    checkPositive (label ++ "orientation_noise_stddev_deg") c.orientationNoiseDeg
    if ¬(0 ≤ c.dropout ∧ c.dropout ≤ 1) then
      throw (.invalidScenario (.dropoutNotProbability c.name c.dropout))
  | .gyro g => checkPositive (label ++ "noise_stddev_deg") g.noiseDeg

/-- The first sensor that cannot be simulated is reported. -/
def checkSensors : List (SensorConfig α) → Except (SimulationError α) Unit
  | [] => .ok ()
  | s :: rest => do
    checkSensor s
    checkSensors rest

/-- The scenario can be run. -/
def validate (c : Scenario α) : Except (SimulationError α) Unit := do
  checkPositive "simulation.duration_seconds" c.run.duration
  checkPositive "simulation.step_hz" c.run.stepRate
  checkPositive "simulation.report_interval_seconds" c.run.reportInterval
  if c.sensors.isEmpty then throw (.invalidScenario .noSensors)
  checkSensors c.sensors
  c.tracker.validate.mapError .filter

end Scenario

end PoseFilter
