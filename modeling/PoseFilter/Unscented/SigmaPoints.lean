import PoseFilter.Mat.Definite
import PoseFilter.State
import PoseFilter.Unscented.Weights

/-!
# Sigma points

The `2n + 1` points that stand for a state and its covariance `P`.  The first is the state itself.
The others are the state moved along the columns of a square root of `spread · P` and along their
opposites, by the state's own retraction, so that the rotations among them stay rotations.
-/

namespace PoseFilter

/-- The sigma points of a state. -/
structure SigmaPoints (S α : Type) (n : Nat) where
  /-- The points; the first is the state itself. -/
  points : Vector S (2 * n + 1)
  /-- Row `i` is the tangent vector that leads from the state to point `i`. -/
  offsets : Mat α (2 * n + 1) n
  /-- The weights of the points. -/
  weights : SigmaWeights α n

namespace SigmaPoints

variable {S α : Type}

/-- The tangent vectors of the points: zero, the columns of the root, and their opposites. -/
def offsetsOf [Scalar α] {n : Nat} (root : Mat α n n) : Mat α (2 * n + 1) n :=
  Mat.ofFn fun i k =>
    if h₀ : i.val = 0 then 0
    else if h : i.val ≤ n then root.get k ⟨i.val - 1, by omega⟩
    else -root.get k ⟨i.val - n - 1, by omega⟩

open FilterState in
/-- The points of a state.  The parameters are checked first, then the shape of the covariance,
then whether it has a square root. -/
def generate [Spectral α] [FilterState S α] (state : S) (params : UnscentedParams α) :
    Except (FilterError α) (SigmaPoints S α (dim S)) := do
  let weights ← params.weights (dim S)
  let p ← covariance? state
  if !p.isFinite then throw .covarianceNotPositiveDefinite
  match (p.scale weights.spread).squareRoot? with
  | none => throw .covarianceNotPositiveDefinite
  | some root =>
    let offsets := offsetsOf root
    return {
      points := Vector.ofFn fun i => if i.val = 0 then state else retract state (offsets.row i)
      offsets
      weights }

theorem generate_of_no_root [Spectral α] [FilterState S α] {state : S} {params : UnscentedParams α}
    {p : Mat α (FilterState.dim S) (FilterState.dim S)}
    (hp : FilterState.covariance state = p.toGrid) {w : SigmaWeights α (FilterState.dim S)}
    (hw : params.weights (FilterState.dim S) = .ok w)
    (h : (p.scale w.spread).squareRoot? = none) :
    generate state params = .error .covarianceNotPositiveDefinite := by
  simp only [generate, hw, FilterState.covariance?_of_toGrid hp, h, bind, Except.bind]
  split <;> rfl

end SigmaPoints

end PoseFilter
