import PoseFilter.Simulation.ErrorStats
import PoseFilter.Simulation.Sensor
import PoseFilter.Tracker.Basic

/-!
# Runs

A run drives one body through a scenario.  In each step the readings that fell due since the last
one are fed to the tracker in the order of their times (sensors in the order of the scenario when
times agree), the tracker is brought to the time of the step, and its error is recorded.  All
sensors draw from one random source, so the scenario and the source determine the run.
-/

namespace PoseFilter

/-- What a finished run comes to. -/
structure RunSummary (α : Type) where
  body : String
  steps : Nat
  /-- Readings fed to the tracker. -/
  measurements : Nat
  /-- Readings lost. -/
  dropped : Nat
  applied : Nat
  rejectedOutliers : Nat
  rejectedInvalid : Nat
  errors : ErrorStats α
  finalEstimateTrustworthy : Bool

/-- What a run has to tell. -/
inductive RunEvent (α : Type)
  /-- A body is set up with a number of sensors and a seed. -/
  | setUp (body : String) (sensors : Nat) (seed : UInt64)
  /-- A sensor was made. -/
  | sensorCreated (kind name : String) (handle : SensorHandle) (rate : α)
  /-- The tracker told something. -/
  | tracker (event : TrackerEvent α)
  /-- The steps begin. -/
  | started (steps : Nat) (rate : α)
  /-- The error at a time. -/
  | stateError (body : String) (time : α) (error : PoseError α)
  /-- The run is over. -/
  | completed (summary : RunSummary α)

/-- A run after some steps. -/
structure Run (γ α : Type) where
  scenario : Scenario α
  sensors : List (Sensor α)
  tracker : Tracker α
  /-- The random source that all sensors draw from. -/
  source : γ
  stats : ErrorStats α
  measurements : Nat
  dropped : Nat
  /-- The time from which the next report is due. -/
  nextReport : α
  /-- What has been told so far, oldest first. -/
  journal : Array (RunEvent α)

/-- A sensor that fires. -/
structure Firing (α : Type) where
  time : α
  /-- The place of the sensor in the scenario. -/
  index : Nat
  sensor : Sensor α

namespace Firing

variable {α : Type} [Scalar α]

/-- Earlier firings first, and of those at one time the sensor that comes first. -/
def before (a b : Firing α) : Bool :=
  decide (a.time < b.time) || (!decide (b.time < a.time) && decide (a.index ≤ b.index))

/-- The firings of sensors that are due, each sensor's together, the sensors numbered from
`index`. -/
def collect (now : α) : Nat → List (Sensor α) → List (Firing α)
  | _, [] => []
  | index, s :: rest => (s.schedule.due now).map (⟨·, index, s⟩) ++ collect now (index + 1) rest

/-- The firings of sensors that are due, in the order in which they are fed. -/
def due (now : α) (sensors : List (Sensor α)) : List (Firing α) :=
  (collect now 0 sensors).mergeSort before

end Firing

namespace Run

section Create

variable {α γ : Type} [Scalar α]

/-- The sensors of a scenario, numbered from `index`. -/
def makeSensors : Nat → List (SensorConfig α) → Except (SimulationError α) (List (Sensor α))
  | _, [] => .ok []
  | index, c :: rest => do
    let s ← Sensor.ofConfig c ⟨index⟩
    return s :: (← makeSensors (index + 1) rest)

/-- The sensors as they are told about. -/
def sensorEvents (index : Nat) : List (SensorConfig α) → List (RunEvent α)
  | [] => []
  | c :: rest => .sensorCreated c.kind c.name ⟨index⟩ c.rate :: sensorEvents (index + 1) rest

/-- The tracked body of a run. -/
def body : BodyHandle := ⟨0⟩

/-- The tracker's state at time zero: the true start, at rest. -/
def startState (c : Scenario α) : PoseState α :=
  let s : PoseState α :=
    { PoseState.initial with
      position := c.body.start.position
      orientation := c.body.start.orientation }
  s.resetCovariance c.tracker.initialCovariance

/-- A run of a scenario before its first step. -/
def create (c : Scenario α) (source : γ) : Except (SimulationError α) (Run γ α) := do
  c.validate
  let sensors ← makeSensors 0 c.sensors
  let tracker ← (Tracker.create body c.tracker (startState c) 0).mapError .filter
  return {
    scenario := c
    sensors, tracker, source
    stats := ErrorStats.empty
    measurements := 0
    dropped := 0
    nextReport := c.run.reportInterval
    journal :=
      #[.setUp c.body.name c.sensors.length c.run.seed] ++ (sensorEvents 0 c.sensors).toArray ++
        #[.tracker (.created tracker.handle c.tracker.motion)] }

/-- The sensors with all firings up to a time handed out. -/
def drained (now : α) (sensors : List (Sensor α)) : List (Sensor α) :=
  sensors.map fun s => { s with schedule := (s.schedule.drain now).2 }

/-- The number of steps of a scenario. -/
def stepCount (c : Scenario α) : Nat := Scalar.roundNat (c.run.duration * c.run.stepRate)

end Create

variable {α γ : Type} [Spectral α] [NoiseSource γ α]

omit [Spectral α] [NoiseSource γ α] in
/-- The journal continued by what the tracker told. -/
def tell (r : Run γ α) (events : List (TrackerEvent α)) : Run γ α :=
  { r with journal := r.journal ++ (events.map RunEvent.tracker).toArray }

omit [NoiseSource γ α] in
/-- One input given to the tracker. -/
def give (r : Run γ α) (input : Input α) : Except (SimulationError α) Unit × Run γ α :=
  let reply := r.tracker.process input
  let r := { r with tracker := reply.tracker }.tell reply.events
  match reply.result with
  | .ok _ => (.ok (), r)
  | .error e => (.error (.filter e), r)

/-- One firing: the sensor observes, and what it sees is given to the tracker. -/
def fire (r : Run γ α) (f : Firing α) : Except (SimulationError α) Unit × Run γ α :=
  let truth := (Truth.ofBody r.scenario.body).atTime f.time
  match f.sensor.observe r.tracker.handle f.time truth r.source with
  | .error e => (.error e, r)
  | .ok (none, source) => (.ok (), { r with source, dropped := r.dropped + 1 })
  | .ok (some message, source) =>
    { r with source, measurements := r.measurements + 1 }.give (.measurement message)

/-- Firings one after another, up to the first error. -/
def fireAll (r : Run γ α) : List (Firing α) → Except (SimulationError α) Unit × Run γ α
  | [] => (.ok (), r)
  | f :: rest =>
    match r.fire f with
    | (.ok (), r) => r.fireAll rest
    | (.error e, r) => (.error e, r)

omit [NoiseSource γ α] in
/-- The error at a time, recorded, and reported if a report is due. -/
def score (r : Run γ α) (now : α) : Run γ α :=
  let truth := (Truth.ofBody r.scenario.body).atTime now
  let error := PoseError.between truth.pose r.tracker.state.pose
  let r := { r with stats := r.stats.record error }
  if r.nextReport ≤ now + 1e-9 then
    { r with
      journal := r.journal.push (.stateError r.scenario.body.name now error)
      nextReport := r.nextReport + r.scenario.run.reportInterval }
  else r

/-- One step of a run, up to a time. -/
def step (r : Run γ α) (now : α) : Except (SimulationError α) Unit × Run γ α :=
  let firings := Firing.due now r.sensors
  match { r with sensors := drained now r.sensors }.fireAll firings with
  | (.error e, r) => (.error e, r)
  | (.ok (), r) =>
    match r.give (.timeStep now) with
    | (.error e, r) => (.error e, r)
    | (.ok (), r) => (.ok (), r.score now)

/-- Steps at the times `k / rate`, for `count` values of `k` from the given one. -/
def steps (r : Run γ α) (k : Nat) : Nat → Except (SimulationError α) Unit × Run γ α
  | 0 => (.ok (), r)
  | count + 1 =>
    match r.step ((k : α) / r.scenario.run.stepRate) with
    | (.error e, r) => (.error e, r)
    | (.ok (), r) => r.steps (k + 1) count

omit [NoiseSource γ α] in
/-- What a run has come to after a number of steps. -/
def summary (r : Run γ α) (steps : Nat) : RunSummary α where
  body := r.scenario.body.name
  steps
  measurements := r.measurements
  dropped := r.dropped
  applied := r.tracker.applied
  rejectedOutliers := r.tracker.rejectedOutliers
  rejectedInvalid := r.tracker.rejectedInvalid
  errors := r.stats
  finalEstimateTrustworthy := r.tracker.estimate.isTrustworthy

/-- All steps of the scenario. -/
def complete (r : Run γ α) : Except (SimulationError α) (RunSummary α) × Run γ α :=
  let count := stepCount r.scenario
  let r := { r with journal := r.journal.push (.started count r.scenario.run.stepRate) }
  match r.steps 1 count with
  | (.error e, r) => (.error e, r)
  | (.ok (), r) =>
    let s := r.summary count
    (.ok s, { r with journal := r.journal.push (.completed s) })

end Run

end PoseFilter
