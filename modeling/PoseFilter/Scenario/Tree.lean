import PoseFilter.Document.Value
import PoseFilter.Scenario.Basic

/-!
# Scenarios as trees

A scenario can be written as a tree of tables and read back.  In the tree angles are degrees and
an orientation is roll, pitch and yaw.  A document need not say everything: it is laid over the
tree of the standard scenario before it is read (`Scenario.ofLayered?`), and even when it is read
alone (`Scenario.ofValue?`) most keys may be missing.  Every part is a record: usually a table, but
a list of its values in the order of the keys is read as well.  What such a list has too many is
refused in a tagged record and ignored in a scenario's other ones.

Unknown keys are refused in the tables of the run, the body, the tracker and the sigma points, and
ignored in the start pose, the sensors and the motion.
-/

namespace PoseFilter

variable {α : Type} [Scalar α]

namespace Vec3

omit [Scalar α] in
/-- A vector as a list of three numbers. -/
def toValue (v : Vec3 α) : Value α := .list [.number v.x, .number v.y, .number v.z]

/-- A vector from a list of at least three values; what follows the third is ignored. -/
def ofValue? : Value α → Option (Vec3 α)
  | .list (x :: y :: z :: _) => do return ⟨← x.number?, ← y.number?, ← z.number?⟩
  | _ => none

end Vec3

namespace Rotation

/-- An orientation as roll, pitch and yaw in degrees. -/
def toDegrees (q : Quaternion α) : Vec3 α := (toEuler q).map Scalar.toDegrees

/-- An orientation from roll, pitch and yaw in degrees. -/
def ofDegrees (v : Vec3 α) : Quaternion α :=
  ofEuler (Scalar.toRadians v.x) (Scalar.toRadians v.y) (Scalar.toRadians v.z)

end Rotation

/-! ### The tracker's settings -/

namespace Motion

/-- The word for constant velocities. -/
def constantWord : String := "ConstantVelocity"

/-- The word for damped velocities. -/
def dampedWord : String := "DampedConstantVelocity"

omit [Scalar α] in
/-- The motion as a table, tagged by its type. -/
def toValue (m : Motion α) : Value α :=
  let noises : Value.Entries α :=
    [("position_noise", .number m.positionNoise), ("orientation_noise", .number m.orientationNoise)]
  match m.damping with
  | none => .table (("type", .text constantWord) :: noises)
  | some d => .table (("type", .text dampedWord) :: noises ++ [("damping", .number d)])

/-- The motion that a tagged record describes. -/
def ofValue? (v : Value α) : Option (Motion α) := do
  let (word, v) ← v.tagged? "type"
  if word = constantWord then
    let es ← v.record? .refused ["position_noise", "orientation_noise"]
    return ⟨← es.optional "position_noise" Value.number? defaultPositionNoise,
      ← es.optional "orientation_noise" Value.number? defaultOrientationNoise, none⟩
  else if word = dampedWord then
    let es ← v.record? .refused ["position_noise", "orientation_noise", "damping"]
    return ⟨← es.optional "position_noise" Value.number? defaultPositionNoise,
      ← es.optional "orientation_noise" Value.number? defaultOrientationNoise,
      some (← es.optional "damping" Value.number? defaultDamping)⟩
  else none

end Motion

namespace UnscentedParams

omit [Scalar α] in
/-- The parameters as a table. -/
def toValue (p : UnscentedParams α) : Value α :=
  .table [("alpha", .number p.alpha), ("beta", .number p.beta), ("kappa", .number p.kappa)]

/-- The parameters that a record describes. -/
def ofValue? (surplus : Value.Surplus) (v : Value α) : Option (UnscentedParams α) := do
  let es ← v.closedRecord? surplus ["alpha", "beta", "kappa"]
  let d : UnscentedParams α := standard
  return ⟨← es.optional "alpha" Value.number? d.alpha, ← es.optional "beta" Value.number? d.beta,
    ← es.optional "kappa" Value.number? d.kappa⟩

end UnscentedParams

namespace TrackerConfig

omit [Scalar α] in
/-- The settings as a table; without a gate there is no such key. -/
def toValue (c : TrackerConfig α) : Value α :=
  let gate : Value.Entries α :=
    match c.gate with
    | some g => [("gate", .number g)]
    | none => []
  .table ([("process_model", c.motion.toValue), ("ukf", c.params.toValue),
    ("initial_covariance", .number c.initialCovariance)] ++ gate ++
    [("max_consecutive_failures", .integer c.maxConsecutiveFailures)])

/-- A gate, which may be present and say nothing. -/
def gateOfValue? : Value α → Option (Option α)
  | .absent => some none
  | v => v.number?.map some

/-- The settings that a record describes. -/
def ofValue? (surplus : Value.Surplus) (v : Value α) : Option (TrackerConfig α) := do
  let es ← v.closedRecord? surplus
    ["process_model", "ukf", "initial_covariance", "gate", "max_consecutive_failures"]
  let d : TrackerConfig α := standard
  return {
    motion := ← es.optional "process_model" Motion.ofValue? d.motion
    params := ← es.optional "ukf" (UnscentedParams.ofValue? surplus) d.params
    initialCovariance := ← es.optional "initial_covariance" Value.number? d.initialCovariance
    gate := ← es.optional "gate" gateOfValue? d.gate
    maxConsecutiveFailures :=
      ← es.optional "max_consecutive_failures" (Value.nat? UInt32.size) d.maxConsecutiveFailures }

end TrackerConfig

/-! ### The rest of a scenario -/

namespace RunConfig

omit [Scalar α] in
/-- Time and chance as a table. -/
def toValue (c : RunConfig α) : Value α :=
  .table [("seed", .integer c.seed.toNat), ("duration_seconds", .number c.duration),
    ("step_hz", .number c.stepRate), ("report_interval_seconds", .number c.reportInterval)]

/-- Time and chance that a record describes. -/
def ofValue? (v : Value α) : Option (RunConfig α) := do
  let es ← v.closedRecord? .ignored
    ["seed", "duration_seconds", "step_hz", "report_interval_seconds"]
  let d : RunConfig α := Scenario.standardRun
  return {
    seed := (← es.optional "seed" (Value.nat? UInt64.size) d.seed.toNat).toUInt64
    duration := ← es.optional "duration_seconds" Value.number? d.duration
    stepRate := ← es.optional "step_hz" Value.number? d.stepRate
    reportInterval := ← es.optional "report_interval_seconds" Value.number? d.reportInterval }

end RunConfig

namespace BodyConfig

/-- The start pose as a table. -/
def startToValue (p : Pose α) : Value α :=
  .table [("translation", p.position.toValue),
    ("rotation", (Rotation.toDegrees p.orientation).toValue)]

/-- The start pose that a record describes. -/
def startOfValue? (v : Value α) : Option (Pose α) := do
  let es ← v.record? .ignored ["translation", "rotation"]
  return {
    position := ← es.optional "translation" Vec3.ofValue? Vec3.zero
    orientation := ← es.optional "rotation"
      (fun v => (Vec3.ofValue? v).map Rotation.ofDegrees) Quaternion.identity }

/-- The body as a table. -/
def toValue (b : BodyConfig α) : Value α :=
  .table [("name", .text b.name), ("start", startToValue b.start),
    ("linear_velocity", b.linearVelocity.toValue),
    ("angular_velocity_deg", (b.angularVelocity.map Scalar.toDegrees).toValue)]

/-- The body that a record describes; it needs a name. -/
def ofValue? (v : Value α) : Option (BodyConfig α) := do
  let es ← v.closedRecord? .ignored ["name", "start", "linear_velocity", "angular_velocity_deg"]
  return {
    name := ← es.required "name" Value.text?
    start := ← es.optional "start" startOfValue? Scenario.origin
    linearVelocity := ← es.optional "linear_velocity" Vec3.ofValue? Vec3.zero
    angularVelocity := ← es.optional "angular_velocity_deg"
      (fun v => (Vec3.ofValue? v).map (Vec3.map Scalar.toRadians)) Vec3.zero }

end BodyConfig

namespace CameraOutput

/-- The word for what a camera reports. -/
def word : CameraOutput → String
  | orientation => "Orientation"
  | position => "Position"
  | pose => "Pose"

/-- What a camera reports, from its word. -/
def ofWord? : String → Option CameraOutput
  | "Orientation" => some orientation
  | "Position" => some position
  | "Pose" => some pose
  | _ => none

omit [Scalar α] in
/-- What a camera reports: its word, or a table with nothing but the word as a key for nothing. -/
def ofValue? : Value α → Option CameraOutput
  | .text s => ofWord? s
  | .table [(s, .table [])] => ofWord? s
  | _ => none

end CameraOutput

namespace SensorConfig

omit [Scalar α] in
/-- A sensor as a table, tagged by its kind. -/
def toValue : SensorConfig α → Value α
  | .camera c =>
    .table [("kind", .text "Camera"), ("name", .text c.name), ("rate", .number c.rate),
      ("output", .text c.output.word), ("position_noise_stddev", .number c.positionNoise),
      ("orientation_noise_stddev_deg", .number c.orientationNoiseDeg),
      ("dropout_probability", .number c.dropout)]
  | .gyro g =>
    .table [("kind", .text "Gyro"), ("name", .text g.name), ("rate", .number g.rate),
      ("noise_stddev_deg", .number g.noiseDeg)]

/-- The camera that a record describes. -/
def cameraOfValue? (v : Value α) : Option (CameraConfig α) := do
  let es ← v.record? .refused ["name", "rate", "output", "position_noise_stddev",
    "orientation_noise_stddev_deg", "dropout_probability"]
  return {
    name := ← es.required "name" Value.text?
    rate := ← es.required "rate" Value.number?
    output := ← es.required "output" CameraOutput.ofValue?
    positionNoise :=
      ← es.optional "position_noise_stddev" Value.number? Scenario.defaultPositionNoise
    orientationNoiseDeg := ← es.optional "orientation_noise_stddev_deg" Value.number?
      Scenario.defaultOrientationNoiseDeg
    dropout := ← es.optional "dropout_probability" Value.number? 0 }

/-- The gyroscope that a record describes. -/
def gyroOfValue? (v : Value α) : Option (GyroConfig α) := do
  let es ← v.record? .refused ["name", "rate", "noise_stddev_deg"]
  return {
    name := ← es.required "name" Value.text?
    rate := ← es.required "rate" Value.number?
    noiseDeg := ← es.optional "noise_stddev_deg" Value.number? Scenario.defaultGyroNoiseDeg }

/-- The sensor that a tagged record describes. -/
def ofValue? (v : Value α) : Option (SensorConfig α) := do
  match ← v.tagged? "kind" with
  | ("Camera", v) => return .camera (← cameraOfValue? v)
  | ("Gyro", v) => return .gyro (← gyroOfValue? v)
  | _ => none

/-- The sensors that a list describes. -/
def listOfValue? (v : Value α) : Option (List (SensorConfig α)) := do
  (← v.list?).mapM ofValue?

end SensorConfig

namespace Scenario

/-- The scenario as a table. -/
def toValue (c : Scenario α) : Value α :=
  .table [("simulation", c.run.toValue), ("body", c.body.toValue),
    ("sensors", .list (c.sensors.map SensorConfig.toValue)), ("tracker", c.tracker.toValue)]

/-- The scenario that a record describes on its own. -/
def ofValue? (v : Value α) : Option (Scenario α) := do
  let es ← v.closedRecord? .ignored ["simulation", "body", "sensors", "tracker"]
  return {
    run := ← es.optional "simulation" RunConfig.ofValue? standardRun
    body := ← es.optional "body" BodyConfig.ofValue? standardBody
    sensors := ← es.optional "sensors" SensorConfig.listOfValue? standardSensors
    tracker := ← es.optional "tracker" (TrackerConfig.ofValue? .ignored) TrackerConfig.standard }

/-- The scenario that a table describes when it is laid over the standard one. -/
def ofLayered? (v : Value α) : Option (Scenario α) :=
  ofValue? ((toValue (standard : Scenario α)).layer v)

/-- The scenario of a table laid over the standard one, if it can be run. -/
def extract (v : Value α) : Except (SimulationError α) (Scenario α) := do
  match ofLayered? v with
  | none => throw .unreadable
  | some c =>
    c.validate
    return c

end Scenario

end PoseFilter
