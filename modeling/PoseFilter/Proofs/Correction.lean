import PoseFilter.Proofs.Innovation
import PoseFilter.Proofs.Transitions

/-!
# Success of the exact correction

For any state, any measurement model and any accepted parameters, the sums of the correction
collapse (`Correction.sums_collapse_and_commit`).  When `β ≥ α²` the correction of a positive
semi-definite covariance is never refused, and the covariance that is committed is positive
semi-definite and not larger than the prior one.

* `propose_collapsed` : the proposal in terms of the outer points alone.
* `Correction.commit_ofMoments` : what is committed, and the only way in which it can fail.
-/

open Matrix

namespace PoseFilter

open FilterState

/-- The offsets of the outer points along a root. -/
noncomputable def outerOffsets {n : Nat} (root : Mat ℝ n n) : Fin (2 * n) → Fin n → ℝ :=
  fun i => ((SigmaPoints.offsetsOf root).row i.succ).get

theorem eq_moment_outerOffsets {n : Nat} {root p : Mat ℝ n n} {s : ℝ} (hs : 0 < s)
    (h : root.toMatrix * root.toMatrixᵀ = s • p.toMatrix) :
    p.toMatrix = moment (1 / (2 * s)) (outerOffsets root) (outerOffsets root) :=
  (SigmaPoints.weighted_vecMulVec_offsets hs h).symm

section General

variable {S V : Type} [FilterState S ℝ]

/-- The deviations of the outer points along a root. -/
noncomputable def MeasurementModel.outerDeviations (model : MeasurementModel S V ℝ) (state : S)
    (root : Mat ℝ (FilterState.dim S) (FilterState.dim S)) :
    Fin (2 * FilterState.dim S) → Fin model.dim → ℝ :=
  fun i => model.deviation state ((SigmaPoints.offsetsOf root).row i.succ)

variable [Diagonalization]

/-- **The proposal in terms of the outer points.** -/
theorem propose_collapsed {state : S} {model : MeasurementModel S V ℝ} (hm : model.Consistent)
    {params : UnscentedParams ℝ} {r : Mat ℝ model.dim model.dim}
    (hr : model.covariance state = r.toGrid) (hrpd : r.toMatrix.PosDef)
    {root : Mat ℝ (dim S) (dim S)} {w : SigmaWeights ℝ (dim S)} (hw : w.Balanced params)
    (hg : SigmaPoints.generate state params = .ok (SigmaPoints.along state root w))
    {d : Fin (2 * dim S) → Fin model.dim → ℝ} (hd : d = model.outerDeviations state root)
    {mean : Fin model.dim → ℝ} (hmean : mean = (1 / (2 * w.spread)) • ∑ i, d i)
    {S' : Matrix (Fin model.dim) (Fin model.dim) ℝ}
    (hS : S' = r.toMatrix + moment (1 / (2 * w.spread)) d d +
      (params.beta - params.alpha ^ 2) • vecMulVec mean mean) :
    (S'.PosDef → propose state model params = .ok (Proposal.ofMoments S'
      (moment (1 / (2 * w.spread)) (outerOffsets root) d) (model.innovation state - mean))) ∧
      (¬S'.PosDef → propose state model params = .error .innovationCovarianceSingular) := by
  have hcheck := Proposal.checkNoise_of_posDef hrpd
  rw [← hr] at hcheck
  rw [propose_of_generate hm hcheck hg]
  have hrow : (fun i : Fin (2 * dim S) =>
      ((model.deviations state (SigmaPoints.offsetsOf root)).row i.succ).get) = d := by
    rw [hd]
    exact funext fun i => model.row_deviations_succ state _ i
  have hshift : Proposal.meanDeviation w (model.deviations state (SigmaPoints.offsetsOf root)) =
      mean := by
    funext j
    rw [hmean, ← hrow, Proposal.meanDeviation_eq hw]
    simp
  have hspec := Proposal.ofDeviations_eq hw
    (isSymm_of_posSemidef hrpd.posSemidef) (SigmaPoints.offsetsOf_zero root)
    (SigmaPoints.sum_offsets root)
    (model.get_deviations_zero state (SigmaPoints.offsetsOf root))
    (Column.ofFn (model.innovation state)) (S := S') (by rw [hrow, hshift, hS])
  rwa [hrow, hshift, Column.get_ofFn_eq] at hspec

namespace Correction

variable {n m : Nat}

theorem correctedCovariance_ofMoments {p : Mat ℝ n n} {S' : Matrix (Fin m) (Fin m) ℝ}
    (hS : S'.PosDef) {C : Matrix (Fin n) (Fin m) ℝ} (z : Fin m → ℝ)
    (hsymm : (p.toMatrix - C * S'⁻¹ * Cᵀ).IsSymm) :
    correctedCovariance p (Proposal.ofMoments S' C z) =
      Mat.ofMatrix (p.toMatrix - C * S'⁻¹ * Cᵀ) := by
  have hunit := (Matrix.isUnit_iff_isUnit_det S').1 hS.isUnit
  have hinv : S'⁻¹ᵀ = S'⁻¹ := by
    rw [Matrix.transpose_nonsing_inv, (isSymm_of_posSemidef hS.posSemidef).eq]
  have hview : (p - (Proposal.ofMoments S' C z).gain *
      (Proposal.ofMoments S' C z).innovationCovariance *
        (Proposal.ofMoments S' C z).gain.transpose).toMatrix = p.toMatrix - C * S'⁻¹ * Cᵀ := by
    simp only [Proposal.ofMoments, Mat.toMatrix_sub, Mat.toMatrix_mul, Mat.toMatrix_transpose,
      Mat.toMatrix_ofMatrix, Matrix.transpose_mul, hinv]
    rw [Matrix.mul_assoc C, Matrix.nonsing_inv_mul S' hunit, Matrix.mul_one, ← Matrix.mul_assoc]
  apply Mat.toMatrix_injective
  rw [correctedCovariance, Mat.symmetrized_of_isSymm (by rwa [hview]), hview,
    Mat.toMatrix_ofMatrix]

omit [Diagonalization] [FilterState S ℝ] in
theorem rejection_of_ok {c : Correction S ℝ n m} {q : Proposal ℝ n m} (h : c.proposal = .ok q) :
    c.rejection = none := by
  rw [rejection, h]
  exact if_pos (Column.isFinite_eq _)

/-- **What is committed.**  With a positive semi-definite result, the only thing that can keep a
correction from being written is a mean that is not finite. -/
theorem commit_ofMoments {c : Correction S ℝ (dim S) m} {S' : Matrix (Fin m) (Fin m) ℝ}
    {C : Matrix (Fin (dim S)) (Fin m) ℝ} {z : Fin m → ℝ}
    (hc : c.proposal = .ok (Proposal.ofMoments S' C z)) {p : Mat ℝ (dim S) (dim S)}
    (hp : covariance c.prior = p.toGrid) (hS : S'.PosDef)
    (hpost : (p.toMatrix - C * S'⁻¹ * Cᵀ).PosSemidef) :
    c.commit =
      if meanIsFinite (retract c.prior (Column.ofFn ((C * S'⁻¹) *ᵥ z))) then
        ⟨.ok (), withCovariance (retract c.prior (Column.ofFn ((C * S'⁻¹) *ᵥ z)))
          (Mat.ofMatrix (p.toMatrix - C * S'⁻¹ * Cᵀ)).toGrid⟩
      else ⟨.error .nonFiniteCorrection, c.prior⟩ := by
  have hcorrected := correctedCovariance_ofMoments hS z
    (isSymm_of_posSemidef hpost)
  have hpsd : (Mat.ofMatrix (p.toMatrix - C * S'⁻¹ * Cᵀ)).isPositiveSemidefinite = true :=
    Mat.isPositiveSemidefinite_of_posSemidef (by rwa [Mat.toMatrix_ofMatrix])
  have hchange : (Proposal.ofMoments S' C z).change = Column.ofFn ((C * S'⁻¹) *ᵥ z) := rfl
  rw [commit, corrected_of_proposal hp hc, hcorrected, hpsd, hchange, Column.isFinite_eq,
    Bool.true_and, if_pos rfl]
  split_ifs <;> rfl

/-- **The sums of the correction collapse**, and for `β ≥ α²` the correction succeeds.  For every
state with a positive semi-definite covariance `P`, every consistent measurement model with a
positive definite noise covariance `R` and all accepted parameters, with `w` the weight of an outer
point, `oᵢ` its offset, `dᵢ` the deviation of its prediction and `d̄ = w ∑ dᵢ`:
a proposal has `S = R + w ∑ dᵢ dᵢᵀ + (β - α²) d̄ d̄ᵀ` and `K S = w ∑ oᵢ dᵢᵀ`.  If `β ≥ α²`, there is one,
it is not rejected, and it is committed unless the corrected mean is not finite; the committed
covariance is positive semi-definite and at most `P`. -/
theorem sums_collapse_and_commit (state : S) (model : MeasurementModel S V ℝ)
    (hm : model.Consistent) (params : UnscentedParams ℝ) {p : Mat ℝ (dim S) (dim S)}
    (hp : covariance state = p.toGrid) (hpsd : p.toMatrix.PosSemidef)
    {r : Mat ℝ model.dim model.dim} (hr : model.covariance state = r.toGrid)
    (hrpd : r.toMatrix.PosDef) {weights : SigmaWeights ℝ (dim S)}
    (hw : params.weights (dim S) = .ok weights) :
    ∃ sigma, SigmaPoints.generate state params = .ok sigma ∧
      let w : ℝ := 1 / (2 * (dim S + params.lambda (dim S)))
      let o : Fin (2 * dim S) → Fin (dim S) → ℝ := fun i => (sigma.offsets.row i.succ).get
      let d : Fin (2 * dim S) → Fin model.dim → ℝ :=
        fun i => model.deviation state (sigma.offsets.row i.succ)
      let mean : Fin model.dim → ℝ := w • ∑ i, d i
      let c := begin state model params
      (∀ q, c.proposal = .ok q →
        q.innovationCovariance.toMatrix = r.toMatrix + w • ∑ i, vecMulVec (d i) (d i) +
          (params.beta - params.alpha ^ 2) • vecMulVec mean mean ∧
        q.gain.toMatrix * q.innovationCovariance.toMatrix = w • ∑ i, vecMulVec (o i) (d i)) ∧
      (params.alpha ^ 2 ≤ params.beta →
        c.rejection = none ∧ c.commit.result ≠ .error .invalidCommittedCovariance ∧
        ∃ q, c.proposal = .ok q ∧ ∃ p' : Mat ℝ (dim S) (dim S),
          c.commit =
            (if meanIsFinite (retract state q.change) then
              ⟨.ok (), withCovariance (retract state q.change) p'.toGrid⟩
            else ⟨.error .nonFiniteCorrection, state⟩) ∧
          p'.toMatrix.PosSemidef ∧ (p.toMatrix - p'.toMatrix).PosSemidef) := by
  have hbal := UnscentedParams.weights_spec hw
  obtain ⟨root, hg, hroot⟩ := SigmaPoints.generate_of_posSemidef hp hpsd hw
  refine ⟨_, hg, ?_⟩
  intro w o d mean c
  have hshare : 1 / (2 * weights.spread) = w := by rw [hbal.spread_eq]
  have hwpos : 0 ≤ w := by
    rw [← hshare]
    exact div_nonneg zero_le_one (mul_nonneg zero_le_two hbal.spread_pos.le)
  have hprior : p.toMatrix = moment w o o := by
    rw [eq_moment_outerOffsets hbal.spread_pos hroot, hshare]
    rfl
  have hmeandev : mean = (1 / (2 * weights.spread)) • ∑ i, d i := by rw [hshare]
  obtain ⟨hok, herr⟩ := propose_collapsed hm hr hrpd hbal hg (d := d) rfl hmeandev rfl
  rw [hshare] at hok herr
  set S' := r.toMatrix + moment w d d + (params.beta - params.alpha ^ 2) • vecMulVec mean mean
  refine ⟨fun q hq => ?_, fun hab => ?_⟩
  · -- a proposal exists only if `S` is positive definite, and then it is that of the moments
    by_cases hS : S'.PosDef
    · have hunit := (Matrix.isUnit_iff_isUnit_det S').1 hS.isUnit
      cases Except.ok.inj ((hok hS).symm.trans hq)
      refine ⟨by rw [Proposal.ofMoments, Mat.toMatrix_ofMatrix]; rfl, ?_⟩
      simp only [Proposal.ofMoments, Mat.toMatrix_ofMatrix]
      rw [Matrix.mul_assoc, Matrix.nonsing_inv_mul S' hunit, Matrix.mul_one]
      rfl
    · cases (herr hS).symm.trans hq
  · -- the last term of `S` joins the noise as a positive definite remainder
    have hmean : ((params.beta - params.alpha ^ 2) • vecMulVec mean mean).PosSemidef := by
      refine Matrix.PosSemidef.smul ?_ (sub_nonneg.2 hab)
      simpa using Matrix.posSemidef_vecMulVec_self_star mean
    have hmoments : Moments w o d p.toMatrix
        (r.toMatrix + (params.beta - params.alpha ^ 2) • vecMulVec mean mean) S' (moment w o d) :=
      ⟨hwpos, hprior, rfl, by simp only [S']; abel, hrpd.add_posSemidef hmean⟩
    have hS := hmoments.posDef_innovation
    have hc : c.proposal = .ok (Proposal.ofMoments S' (moment w o d)
      (model.innovation state - mean)) := hok hS
    have hcommit := commit_ofMoments hc hp hS hmoments.posterior_posSemidef
    refine ⟨?_, ?_, _, hc, _, hcommit, ?_, ?_⟩
    · exact rejection_of_ok hc
    · rw [hcommit]
      split_ifs <;> simp
    · rw [Mat.toMatrix_ofMatrix]
      exact hmoments.posterior_posSemidef
    · rw [Mat.toMatrix_ofMatrix, sub_sub_cancel]
      exact hmoments.posSemidef_reduction

end Correction

end General

/-- A scalar that bends along one axis, observed from a new state with the standard parameters. -/
theorem Correction.sums_collapse_and_commit_bent :
    (begin (PoseState.initial : PoseState ℝ)
      { dim := 1
        measured := 0
        predict := fun s => s.position.y + s.position.x * s.position.x
        difference := fun a b => #[a - b]
        covariance := fun _ => (Mat.scalar 1 1).toGrid } UnscentedParams.standard).rejection =
      none := by
  obtain ⟨w, hw⟩ := UnscentedParams.exists_weights_standard (n := FilterState.dim (PoseState ℝ))
    (by decide)
  have hpsd : (Mat.scalar PoseState.dim PoseState.initialVariance).toMatrix.PosSemidef :=
    (Mat.posDef_scalar (by norm_num [PoseState.initialVariance])).posSemidef
  have hrpd : (Mat.scalar 1 (1 : ℝ)).toMatrix.PosDef := Mat.posDef_scalar one_pos
  obtain ⟨_, _, _, h⟩ := sums_collapse_and_commit (PoseState.initial : PoseState ℝ)
    { dim := 1
      measured := 0
      predict := fun s => s.position.y + s.position.x * s.position.x
      difference := fun a b => #[a - b]
      covariance := fun _ => (Mat.scalar 1 1).toGrid }
    ⟨fun _ _ => rfl, fun z => by simp⟩ UnscentedParams.standard rfl hpsd rfl hrpd hw
  exact (h (by norm_num [UnscentedParams.standard])).1

end PoseFilter
