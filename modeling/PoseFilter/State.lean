import PoseFilter.FilterError
import PoseFilter.Mat.Basic

/-!
# States of the filter

A state is a mean, which may live on a curved space, together with the covariance of its error over
a flat tangent space.  All of the filter's arithmetic happens in that tangent space, and the mean is
only touched by retracting a tangent vector onto it.  The correction and the prediction work for
every state with the operations of `FilterState`.
-/

namespace PoseFilter

/-- What the filter needs of a state: the dimension of its tangent space, its covariance, and the
retraction of a tangent vector onto its mean. -/
class FilterState (S : Type) (α : outParam Type) where
  /-- The dimension of the tangent space, which is the side of the covariance. -/
  dim : Nat
  /-- The covariance of the error; its shape is checked before it is used. -/
  covariance : S → Grid α
  /-- The same mean with another covariance. -/
  withCovariance : S → Grid α → S
  /-- The mean moved along a tangent vector. -/
  retract : S → Column α dim → S
  /-- No component of the mean is infinite or undefined. -/
  meanIsFinite : S → Bool

namespace FilterState

variable {S α : Type} [FilterState S α]

/-- The covariance, if it is square with the side of the tangent space. -/
def covariance? (s : S) : Except (FilterError α) (Mat α (dim S) (dim S)) :=
  let g := covariance s
  match g.asMat? (dim S) (dim S) with
  | some p => .ok p
  | none => .error (.dimensionMismatch (dim S) (if g.rows = dim S then g.cols else g.rows))

theorem covariance?_of_toGrid {s : S} {p : Mat α (dim S) (dim S)} (h : covariance s = p.toGrid) :
    covariance? s = .ok p := by
  simp only [covariance?, h, Grid.asMat?_toGrid]

variable [Scalar α]

/-- No entry of the covariance is infinite or undefined. -/
def covarianceIsFinite (s : S) : Bool := (covariance s).isFinite

end FilterState

/-- The verdict on an attempt to change a state, and the state after it. -/
structure Update (S α : Type) where
  /-- Whether the change was made. -/
  result : Except (FilterError α) Unit
  /-- The state afterwards; on an error it is the state before. -/
  state : S

/-- The outcome of an attempt on `s`: the new state, or the old one with the error. -/
def Update.ofExcept {S α : Type} (s : S) : Except (FilterError α) S → Update S α
  | .ok s' => ⟨.ok (), s'⟩
  | .error e => ⟨.error e, s⟩

@[simp]
theorem Update.ofExcept_ok {S α : Type} (s s' : S) :
    Update.ofExcept (α := α) s (.ok s') = ⟨.ok (), s'⟩ := rfl

@[simp]
theorem Update.ofExcept_error {S α : Type} (s : S) (e : FilterError α) :
    Update.ofExcept s (.error e) = ⟨.error e, s⟩ := rfl

theorem Update.eq_ok_of_ofExcept {S α : Type} {s s' : S} {attempt : Except (FilterError α) S}
    (h : Update.ofExcept s attempt = ⟨.ok (), s'⟩) : attempt = .ok s' := by
  cases attempt with
  | ok s'' => exact congrArg Except.ok (congrArg Update.state h)
  | error e => cases h

theorem Update.state_of_error {S α : Type} {s : S} {attempt : Except (FilterError α) S}
    {e : FilterError α} (h : (Update.ofExcept s attempt).result = .error e) :
    (Update.ofExcept s attempt).state = s := by
  cases attempt with
  | ok s' => simp at h
  | error e' => rfl

end PoseFilter
