import PoseFilter.Decimal.Layout

/-!
# What can go wrong in the filter

Errors are causes.  Some come from the input (a time that runs backwards, a measurement covariance
that is not positive definite) and some from the filter's own state; only the latter count towards
recovery (`FilterError.originatesInState`).  Numbers in a cause are numbers of the filter; their
text is made by `FilterError.message`.
-/

namespace PoseFilter

/-- A body that is tracked. -/
structure BodyHandle where
  id : Nat
  deriving DecidableEq

/-- A sensor that measurements come from. -/
structure SensorHandle where
  id : Nat
  deriving DecidableEq

/-- The name of a body in messages. -/
def BodyHandle.label (b : BodyHandle) : String := s!"body#{b.id}"

/-- The name of a sensor in messages. -/
def SensorHandle.label (s : SensorHandle) : String := s!"sensor#{s.id}"

/-- Why a parameter was refused. -/
inductive Fault (α : Type)
  /-- It has to be finite. -/
  | notFinite (value : α)
  /-- It has to be above zero. -/
  | notPositive (value : α)
  /-- It has to be finite and above zero. -/
  | notFinitePositive (value : α)
  /-- It has to be finite and not below zero. -/
  | notFiniteNonNegative (value : α)
  /-- It has to be a fraction above zero, at most one. -/
  | notFraction (value : α)
  /-- The prior and the secondary scaling of the sigma points have to be finite. -/
  | scalingNotFinite
  /-- The squared spread of the sigma points has to be above zero. -/
  | spreadNotPositive (value : α)
  /-- A message went to the tracker of another body. -/
  | misaddressed (sent own : BodyHandle)
  /-- A reason in words. -/
  | words (text : String)

/-- Everything that can go wrong while a tracked body is predicted or corrected. -/
inductive FilterError (α : Type)
  /-- A prediction into the past. -/
  | negativeTimeStep (dt : α)
  /-- A measurement older than the state. -/
  | outOfOrder (measurement state : α)
  /-- The state covariance has no square root. -/
  | covarianceNotPositiveDefinite
  /-- The measurement covariance is not symmetric positive definite. -/
  | measurementCovarianceNotPositiveDefinite
  /-- The innovation covariance has no Cholesky factor. -/
  | innovationCovarianceSingular
  /-- The correction or its ingredients are not finite. -/
  | nonFiniteCorrection
  /-- The corrected covariance would not be positive semi-definite. -/
  | invalidCommittedCovariance
  /-- A parameter outside its range. -/
  | invalidParameter (name : String) (fault : Fault α)
  /-- A vector or matrix of the wrong size. -/
  | dimensionMismatch (expected actual : Nat)

namespace FilterError

/-- The failure comes from the filter's own state and not from the input. -/
def originatesInState {α : Type} : FilterError α → Bool
  | covarianceNotPositiveDefinite => true
  | innovationCovarianceSingular => true
  | nonFiniteCorrection => true
  | invalidCommittedCovariance => true
  | _ => false

end FilterError

/-! ### Texts -/

/-- The wording of a fault. -/
def Fault.message : Fault Float → String
  | notFinite v => "must be finite, got " ++ Layout.plain.text v
  | notPositive v => "must be positive, got " ++ Layout.plain.text v
  | notFinitePositive v => "must be finite and positive, got " ++ Layout.plain.text v
  | notFiniteNonNegative v => "must be finite and non-negative, got " ++ Layout.plain.text v
  | notFraction v => "must lie in (0, 1], got " ++ Layout.plain.text v
  | scalingNotFinite => "beta and kappa must be finite"
  | spreadNotPositive v => "n + lambda must be positive, got " ++ Layout.plain.text v
  | misaddressed sent own => "message for " ++ sent.label ++ " sent to tracker of " ++ own.label
  | words text => text

/-- The wording of an error. -/
def FilterError.message : FilterError Float → String
  | negativeTimeStep dt => "cannot predict backwards in time (dt = " ++ Layout.plain.text dt ++ ")"
  | outOfOrder measurement state =>
    "measurement at t = " ++ Layout.plain.text measurement ++ " is older than the state at t = " ++
      Layout.plain.text state
  | covarianceNotPositiveDefinite => "state covariance is not positive semi-definite"
  | measurementCovarianceNotPositiveDefinite => "measurement covariance is not positive definite"
  | innovationCovarianceSingular => "innovation covariance is singular or ill-conditioned"
  | nonFiniteCorrection => "state correction contains non-finite values"
  | invalidCommittedCovariance => "corrected covariance is not symmetric positive semi-definite"
  | invalidParameter name fault => "invalid parameter `" ++ name ++ "`: " ++ fault.message
  | dimensionMismatch expected actual => s!"dimension mismatch: expected {expected}, got {actual}"

end PoseFilter
