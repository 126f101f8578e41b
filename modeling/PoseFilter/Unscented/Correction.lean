import PoseFilter.Measurement
import PoseFilter.Unscented.SigmaPoints

/-!
# The unscented correction

A correction of a state by a measurement runs in two phases.  `Correction.begin` computes the
innovation, its covariance, the gain and the proposed change of the state, and touches nothing.
The result can be inspected and gated; `Correction.commit` then writes it, if the corrected mean is
finite and the corrected covariance `P - K S Kᵀ` is positive semi-definite, and keeps the state as
it was otherwise.
-/

namespace PoseFilter

/-- What a valid correction consists of, for a state of dimension `n` and a measurement of
dimension `m`. -/
structure Proposal (α : Type) (n m : Nat) where
  /-- The innovation: measured minus predicted. -/
  innovation : Column α m
  /-- The covariance `S` of the innovation, measurement noise included. -/
  innovationCovariance : Mat α m m
  /-- The gain `K`. -/
  gain : Mat α n m
  /-- The change `K · innovation` of the state, in its tangent space. -/
  change : Column α n
  /-- The squared Mahalanobis distance of the innovation. -/
  mahalanobisSquared : α

namespace Proposal

variable {α : Type} [Scalar α] {n m : Nat}

/-- The sum over the sigma points of their covariance weight times the outer product of two
deviations. -/
def weightedOuter {k a b : Nat} (weights : Column α k) (u : Mat α k a) (v : Mat α k b) :
    Mat α a b :=
  Mat.ofFn fun i j => sum k fun l => weights.get l * u.get l i * v.get l j

/-- The asymmetry allowed in a measurement covariance. -/
def symmetryTolerance : α := 1e-12

/-- The measurement covariance, checked: of the right shape, finite, symmetric, positive
definite. -/
def checkNoise (m : Nat) (noise : Grid α) : Except (FilterError α) (Mat α m m) :=
  match noise.asMat? m m with
  | none => .error (.dimensionMismatch m noise.rows)
  | some r =>
    if r.isFinite && r.isSymmetric symmetryTolerance && r.cholesky?.isSome then .ok r
    else .error .measurementCovarianceNotPositiveDefinite

/-- A difference of measured values, checked for its length. -/
def checkLength (m : Nat) (difference : Array α) : Except (FilterError α) (Column α m) :=
  match Column.ofArray? m difference with
  | some v => .ok v
  | none => .error (.dimensionMismatch m difference.size)

omit [Scalar α] in
theorem checkLength_of_size {difference : Array α} (h : difference.size = m) :
    checkLength m difference = .ok ⟨difference, h⟩ := by
  simp only [checkLength, Column.ofArray?, h, dite_true]

/-- The proposal from the noise `r`, the weights, the offsets of the points, the deviations of
their predictions from the central prediction, and the residual of the central prediction. -/
def ofDeviations (r : Mat α m m) (weights : SigmaWeights α n) (offsets : Mat α (2 * n + 1) n)
    (deviations : Mat α (2 * n + 1) m) (residual : Column α m) :
    Except (FilterError α) (Proposal α n m) :=
  let shift := deviations.transpose.mulColumn weights.mean
  let centered : Mat α (2 * n + 1) m := Mat.ofFn fun i j => deviations.get i j - shift.get j
  let s := (r + weightedOuter weights.covariance centered centered).symmetrized
  let c := weightedOuter weights.covariance offsets centered
  if !s.isFinite || !c.isFinite then .error .nonFiniteCorrection
  else
    match s.cholesky? with
    | none => .error .innovationCovarianceSingular
    | some l =>
      let gain : Mat α n m := ⟨Vector.ofFn fun i => l.solveFactored (c.row i)⟩
      let innovation := residual.sub shift
      .ok
        { innovation
          innovationCovariance := s
          gain
          change := gain.mulColumn innovation
          mahalanobisSquared := innovation.dot (l.solveFactored innovation) }

end Proposal

/-- The correction of a state by a measurement model: the noise is checked first, then the sigma
points are drawn and sent through the model. -/
def propose {S V α : Type} [Spectral α] [FilterState S α] (state : S)
    (model : MeasurementModel S V α) (params : UnscentedParams α) :
    Except (FilterError α) (Proposal α (FilterState.dim S) model.dim) := do
  let r ← Proposal.checkNoise model.dim (model.covariance state)
  let sigma ← SigmaPoints.generate state params
  let predictions := sigma.points.map model.predict
  let center := predictions[0]
  let deviations ← predictions.mapM fun z =>
    Proposal.checkLength model.dim (model.difference z center)
  let residual ← Proposal.checkLength model.dim (model.residual center)
  Proposal.ofDeviations r sigma.weights sigma.offsets ⟨deviations⟩ residual

/-- A correction that has been computed and not yet written. -/
structure Correction (S α : Type) (n m : Nat) where
  /-- The state that would be corrected. -/
  prior : S
  /-- The proposed correction, or why there is none. -/
  proposal : Except (FilterError α) (Proposal α n m)

namespace Correction

variable {S V α : Type} {n m : Nat}

/-- The first phase: nothing is written. -/
def begin [Spectral α] [FilterState S α] (state : S) (model : MeasurementModel S V α)
    (params : UnscentedParams α) : Correction S α (FilterState.dim S) model.dim :=
  ⟨state, propose state model params⟩

section Inspection

variable [Scalar α]

/-- The proposed change exists and is finite. -/
def changeIsFinite (c : Correction S α n m) : Bool :=
  match c.proposal with
  | .ok p => p.change.isFinite
  | .error _ => false

/-- Why the correction cannot be written, if it cannot. -/
def rejection (c : Correction S α n m) : Option (FilterError α) :=
  match c.proposal with
  | .ok p => if p.change.isFinite then none else some .nonFiniteCorrection
  | .error e => some e

/-- The correction can be written. -/
def isValid (c : Correction S α n m) : Bool := c.rejection.isNone

/-- A proposal all of whose entries are undefined. -/
def undefinedProposal : Proposal α n m where
  innovation := Column.ofFn fun _ => Scalar.undefined
  innovationCovariance := Mat.ofFn fun _ _ => Scalar.undefined
  gain := Mat.ofFn fun _ _ => Scalar.undefined
  change := Column.ofFn fun _ => Scalar.undefined
  mahalanobisSquared := Scalar.undefined

/-- The numbers of the correction, undefined where there is none. -/
def numbers (c : Correction S α n m) : Proposal α n m :=
  match c.proposal with
  | .ok p => p
  | .error _ => undefinedProposal

end Inspection

variable [Spectral α] [FilterState S α]

open FilterState

/-- The covariance after a correction, `P - K S Kᵀ` made symmetric. -/
def correctedCovariance (p : Mat α n n) (q : Proposal α n m) : Mat α n n :=
  (p - q.gain * q.innovationCovariance * q.gain.transpose).symmetrized

/-- The corrected state, or why it must not be written. -/
def corrected (c : Correction S α (dim S) m) : Except (FilterError α) S := do
  let q ← c.proposal
  if !q.change.isFinite then throw .nonFiniteCorrection
  let moved := retract c.prior q.change
  if !meanIsFinite moved then throw .nonFiniteCorrection
  let p ← covariance? c.prior
  let p' := correctedCovariance p q
  if !p'.isPositiveSemidefinite then throw .invalidCommittedCovariance
  return withCovariance moved p'.toGrid

/-- The second phase: the corrected state is written if it is sound; otherwise the state stays as
it was. -/
def commit (c : Correction S α (dim S) m) : Update S α := Update.ofExcept c.prior c.corrected

/-- The second phase, reporting only success. -/
def finish (c : Correction S α (dim S) m) : Bool × S :=
  let u := c.commit
  (u.result.isOk, u.state)

end Correction

end PoseFilter
