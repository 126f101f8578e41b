import PoseFilter.FilterError
import PoseFilter.Mat.Basic

/-!
# Weights of the sigma points

The unscented transform replaces a distribution over an `n`-dimensional tangent space by `2n + 1`
points.  Its three parameters fix how far the points lie from the mean and how much each of them
counts.  `UnscentedParams.weights` refuses parameters whose spread is not positive.
-/

namespace PoseFilter

/-- The parameters of the unscented transform. -/
structure UnscentedParams (α : Type) where
  /-- How far the points lie from the mean. -/
  alpha : α
  /-- What is known of the distribution; 2 suits a Gaussian. -/
  beta : α
  /-- A second scaling. -/
  kappa : α
  deriving BEq

/-- The weights of `2n + 1` sigma points. -/
structure SigmaWeights (α : Type) (n : Nat) where
  /-- The weights for means. -/
  mean : Column α (2 * n + 1)
  /-- The weights for covariances. -/
  covariance : Column α (2 * n + 1)
  /-- The factor on the covariance before its root is taken. -/
  spread : α

namespace UnscentedParams

variable {α : Type} [Scalar α]

/-- Close points, suited to a Gaussian. -/
def standard : UnscentedParams α := ⟨1e-3, 2.0, 0⟩

/-- `α² (n + κ) - n`. -/
def lambda (p : UnscentedParams α) (n : Nat) : α :=
  p.alpha * p.alpha * ((n : α) + p.kappa) - (n : α)

/-- The weights for a tangent space of dimension `n`: the central point has weights of its own, all
others share one. -/
def weights (p : UnscentedParams α) (n : Nat) : Except (FilterError α) (SigmaWeights α n) :=
  if ¬(Scalar.isFinite p.alpha ∧ 0 < p.alpha) then
    .error (.invalidParameter "alpha" (.notFinitePositive p.alpha))
  else if !Scalar.isFinite p.beta || !Scalar.isFinite p.kappa then
    .error (.invalidParameter "beta" .scalingNotFinite)
  else
    let lambda := p.lambda n
    let spread := (n : α) + lambda
    if ¬0 < spread then .error (.invalidParameter "kappa" (.spreadNotPositive spread))
    else
      let outer : α := 0.5 / spread
      let center := lambda / spread
      .ok
        { mean := Column.ofFn fun i => if i.val = 0 then center else outer
          covariance := Column.ofFn fun i =>
            if i.val = 0 then center + (1 - p.alpha * p.alpha + p.beta) else outer
          spread }

end UnscentedParams

end PoseFilter
