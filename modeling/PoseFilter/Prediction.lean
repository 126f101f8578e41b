import PoseFilter.Motion

/-!
# Prediction

`predict` moves a state forward in time under a motion model, adds the noise of the step and makes
the covariance symmetric again.  A step that is negative or not finite, and a covariance of the
wrong shape, are refused and leave the state as it was.  A step of length zero is allowed.
-/

namespace PoseFilter

variable {S α : Type} [Scalar α] [FilterState S α]

open FilterState

/-- The state after a step of length `dt`, or why there is none. -/
def predicted (state : S) (model : MotionModel S α) (dt : α) : Except (FilterError α) S := do
  if dt < 0 then throw (.negativeTimeStep dt)
  if !Scalar.isFinite dt then throw (.invalidParameter "dt" (.notFinite dt))
  let _ ← covariance? state
  let (moved, noise) := model.advance state dt
  match noise.asMat? (dim S) (dim S) with
  | none => throw (.dimensionMismatch (dim S) noise.rows)
  | some q =>
    let p ← covariance? moved
    return withCovariance moved (p + q).symmetrized.toGrid

/-- A step forward in time. -/
def predict (state : S) (model : MotionModel S α) (dt : α) : Update S α :=
  Update.ofExcept state (predicted state model dt)

end PoseFilter
