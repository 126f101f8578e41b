import PoseFilter.Prediction
import PoseFilter.Tracker.Config
import PoseFilter.Unscented.Correction

/-!
# Trackers

A tracker follows one body.  It owns the body's state and the time the state is of, predicts the
state forward and corrects it with the readings it is given, which must not run backwards in time.

A correction ends in one of three ways, and each is counted.  Failures that the state itself is to
blame for are also counted in a row; when there are too many, the covariance is reset and the
counting starts again (`Tracker.recover`).
-/

namespace PoseFilter

/-- What became of one input. -/
inductive Outcome (α : Type)
  /-- Time went on, and nothing was measured. -/
  | predicted
  /-- The measurement corrected the state. -/
  | applied (mahalanobisSquared : α)
  /-- The measurement was farther off than the gate allows. -/
  | rejectedOutlier (mahalanobisSquared : α)
  /-- The correction could not be computed or written. -/
  | rejectedInvalid (reason : FilterError α)

/-- What a tracker is given. -/
inductive Input (α : Type)
  /-- Bring the state forward to a time. -/
  | timeStep (time : α)
  /-- Bring the state to the time of a reading and correct it. -/
  | measurement (message : Message α)

/-- The state of one body, the time it is of, and what has happened to its corrections. -/
structure Tracker (α : Type) where
  handle : BodyHandle
  config : TrackerConfig α
  state : PoseState α
  /-- The time of the last prediction or correction. -/
  timestamp : α
  /-- Measurements that corrected the state. -/
  applied : Nat
  /-- Measurements turned away by the gate. -/
  rejectedOutliers : Nat
  /-- Corrections that could not be made. -/
  rejectedInvalid : Nat
  /-- Failures of the state since the last success or reset. -/
  consecutiveFailures : Nat

/-- What a tracker has to tell. -/
inductive TrackerEvent (α : Type)
  /-- A tracker was set up. -/
  | created (body : BodyHandle) (motion : Motion α)
  /-- A prediction went out of the finite range. -/
  | predictionNotFinite (dt : α)
  /-- A corrected mean was not finite and was dropped. -/
  | correctedMeanNotFinite
  /-- A corrected covariance was not semi-definite and was dropped. -/
  | correctedCovarianceNotSemidefinite
  /-- A correction could not be made. -/
  | correctionRejected (body : BodyHandle) (reason : FilterError α)
  /-- The covariance was reset after failures in a row. -/
  | covarianceReset (body : BodyHandle) (failures : Nat) (variance : α)

/-- The result of a call, the tracker after it, and what was told on the way. -/
structure Reply (α β : Type) where
  result : β
  tracker : Tracker α
  events : List (TrackerEvent α)

namespace Tracker

/-! ### Setting up -/

section Create

variable {α : Type} [Scalar α]

/-- A tracker for a body whose state is known at a time. -/
def create (handle : BodyHandle) (config : TrackerConfig α) (state : PoseState α)
    (timestamp : α) : Except (FilterError α) (Tracker α) := do
  config.validate
  return {
    handle, config, state, timestamp
    applied := 0
    rejectedOutliers := 0
    rejectedInvalid := 0
    consecutiveFailures := 0 }

/-- A tracker for a body at rest at the origin at time zero. -/
def createAtRest (handle : BodyHandle) (config : TrackerConfig α) :
    Except (FilterError α) (Tracker α) :=
  create handle config (PoseState.initial.resetCovariance config.initialCovariance) 0

end Create

/-! ### Prediction -/

section Predict

variable {α : Type} [Scalar α]

/-- The warning that a predicted state calls for. -/
def predictionEvents (dt : α) (state : PoseState α) : List (TrackerEvent α) :=
  if state.meanIsFinite && FilterState.covarianceIsFinite state then []
  else [.predictionNotFinite dt]

/-- The state brought forward to a time that is not earlier than its own. -/
def predictTo (t : Tracker α) (time : α) : Reply α (Except (FilterError α) Unit) :=
  if time < t.timestamp then ⟨.error (.outOfOrder time t.timestamp), t, []⟩
  else
    let dt := time - t.timestamp
    let u := predict t.state t.config.motion.toModel dt
    match u.result with
    | .ok () =>
      ⟨.ok (), { t with state := u.state, timestamp := time }, predictionEvents dt u.state⟩
    | .error e => ⟨.error e, t, []⟩

end Predict

/-! ### Correction -/

section Record

variable {α : Type} [Scalar α]

/-- The covariance is reset once the failures in a row reach the limit of the settings. -/
def recover (t : Tracker α) : Tracker α × List (TrackerEvent α) :=
  let limit := t.config.maxConsecutiveFailures
  if 0 < limit ∧ limit ≤ t.consecutiveFailures then
    let variance := t.config.initialCovariance
    ({ t with state := t.state.resetCovariance variance, consecutiveFailures := 0 },
      [.covarianceReset t.handle t.consecutiveFailures variance])
  else (t, [])

/-- The counters after an outcome, and the reset it may call for. -/
def record (t : Tracker α) : Outcome α → Tracker α × List (TrackerEvent α)
  | .predicted => (t, [])
  | .applied _ => ({ t with applied := t.applied + 1, consecutiveFailures := 0 }, [])
  | .rejectedOutlier _ => ({ t with rejectedOutliers := t.rejectedOutliers + 1 }, [])
  | .rejectedInvalid e =>
    let t := { t with rejectedInvalid := t.rejectedInvalid + 1 }
    let told := TrackerEvent.correctionRejected t.handle e
    if e.originatesInState then
      let (t, events) := recover { t with consecutiveFailures := t.consecutiveFailures + 1 }
      (t, told :: events)
    else (t, [told])

/-- The warning for a correction that was computed and could not be written. -/
def commitEvents : FilterError α → List (TrackerEvent α)
  | .nonFiniteCorrection => [.correctedMeanNotFinite]
  | .invalidCommittedCovariance => [.correctedCovarianceNotSemidefinite]
  | _ => []

/-- Whether a squared distance is beyond the gate. -/
def beyondGate (gate : Option α) (mahalanobisSquared : α) : Bool :=
  match gate with
  | some g => decide (g < mahalanobisSquared)
  | none => false

end Record

variable {α : Type} [Spectral α]

/-- The correction of the state by a measurement, before it is counted: the outcome, the state
afterwards and the warnings of writing it. -/
def attempt {V : Type} (t : Tracker α) (model : MeasurementModel (PoseState α) V α) :
    Outcome α × PoseState α × List (TrackerEvent α) :=
  let c := Correction.begin t.state model t.config.params
  match c.rejection with
  | some e => (.rejectedInvalid e, t.state, [])
  | none =>
    let d := c.numbers.mahalanobisSquared
    if beyondGate t.config.gate d then (.rejectedOutlier d, t.state, [])
    else
      let u := c.commit
      match u.result with
      | .ok () => (.applied d, u.state, [])
      | .error e => (.rejectedInvalid e, u.state, commitEvents e)

/-- The state corrected by a measurement at the time it is of. -/
def correct {V : Type} (t : Tracker α) (model : MeasurementModel (PoseState α) V α) :
    Reply α (Outcome α) :=
  let (outcome, state, warnings) := attempt t model
  let (t, events) := record { t with state } outcome
  ⟨outcome, t, warnings ++ events⟩

/-- The state corrected by a reading. -/
def correctBy (t : Tracker α) : Reading α → Reply α (Outcome α)
  | .orientation value noise => t.correct (Measurement.orientation value noise)
  | .position value noise => t.correct (Measurement.position value noise)
  | .pose value noise => t.correct (Measurement.pose value noise)
  | .angularVelocity value noise => t.correct (Measurement.angularVelocity value noise)

/-! ### Inputs -/

/-- A message for this body: the state is brought to its time and corrected. -/
def receive (t : Tracker α) (message : Message α) : Reply α (Except (FilterError α) (Outcome α)) :=
  if message.body ≠ t.handle then
    ⟨.error (.invalidParameter "body_handle" (.misaddressed message.body t.handle)), t, []⟩
  else
    let p := t.predictTo message.timestamp
    match p.result with
    | .error e => ⟨.error e, p.tracker, p.events⟩
    | .ok () =>
      let r := p.tracker.correctBy message.reading
      ⟨.ok r.result, r.tracker, p.events ++ r.events⟩

/-- One input.  A time step that is not ahead of the state changes nothing. -/
def process (t : Tracker α) : Input α → Reply α (Except (FilterError α) (Outcome α))
  | .timeStep time =>
    if t.timestamp < time then
      let p := t.predictTo time
      match p.result with
      | .error e => ⟨.error e, p.tracker, p.events⟩
      | .ok () => ⟨.ok .predicted, p.tracker, p.events⟩
    else ⟨.ok .predicted, t, []⟩
  | .measurement message => t.receive message

/-- Inputs one after another, errors included: what each came to, and the tracker at the end. -/
def processAll (t : Tracker α) :
    List (Input α) → List (Except (FilterError α) (Outcome α)) × Tracker α
  | [] => ([], t)
  | input :: rest =>
    let r := t.process input
    let (results, last) := processAll r.tracker rest
    (r.result :: results, last)

end Tracker

/-! ### Estimates -/

/-- A snapshot of a tracker.  The pose is only to be trusted if nothing in it is invalid. -/
structure Estimate (α : Type) where
  body : BodyHandle
  timestamp : α
  pose : Pose α
  linearVelocity : Vec3 α
  angularVelocity : Vec3 α
  poseCovariance : Mat α 6 6
  stateContentsInvalid : Bool
  covarianceContentsInvalid : Bool

/-- Nothing in the snapshot is infinite or undefined. -/
def Estimate.isTrustworthy {α : Type} (e : Estimate α) : Bool :=
  !e.stateContentsInvalid && !e.covarianceContentsInvalid

/-- The snapshot of a tracker. -/
def Tracker.estimate {α : Type} [Scalar α] (t : Tracker α) : Estimate α where
  body := t.handle
  timestamp := t.timestamp
  pose := t.state.pose
  linearVelocity := t.state.velocity
  angularVelocity := t.state.angularVelocity
  poseCovariance := t.state.poseCovariance
  stateContentsInvalid := !t.state.meanIsFinite
  covarianceContentsInvalid := !FilterState.covarianceIsFinite t.state

end PoseFilter
