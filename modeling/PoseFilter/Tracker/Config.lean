import PoseFilter.Motion
import PoseFilter.Unscented.Weights

/-!
# Settings of a tracker

What a tracker is set up with, and the check that the settings can be used.
-/

namespace PoseFilter

/-- The settings of one tracker. -/
structure TrackerConfig (α : Type) where
  /-- How the body moves. -/
  motion : Motion α
  /-- The parameters of the unscented transform. -/
  params : UnscentedParams α
  /-- The variance of every axis of a new or reset state. -/
  initialCovariance : α
  /-- The squared Mahalanobis distance above which a measurement is an outlier. -/
  gate : Option α
  /-- How many failures of the state in a row reset its covariance; 0 for never. -/
  maxConsecutiveFailures : Nat
  deriving BEq

namespace TrackerConfig

variable {α : Type} [Scalar α]

/-- How many failures in a row are standard. -/
def defaultMaxConsecutiveFailures : Nat := 5

/-- Constant velocities, standard sigma points, no gate. -/
def standard : TrackerConfig α where
  motion := Motion.constantVelocity
  params := UnscentedParams.standard
  initialCovariance := PoseState.initialVariance
  gate := none
  maxConsecutiveFailures := defaultMaxConsecutiveFailures

/-- The settings can be used: initial covariance, gate, sigma points and motion are checked in this
order. -/
def validate (c : TrackerConfig α) : Except (FilterError α) Unit := do
  if ¬(Scalar.isFinite c.initialCovariance ∧ 0 < c.initialCovariance) then
    throw (.invalidParameter "initial_covariance" (.notFinitePositive c.initialCovariance))
  match c.gate with
  | none => pure ()
  | some gate => if ¬0 < gate then throw (.invalidParameter "gate" (.notPositive gate))
  let _ ← c.params.weights PoseState.dim
  c.motion.check

end TrackerConfig

end PoseFilter
