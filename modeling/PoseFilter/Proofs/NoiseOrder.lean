import PoseFilter.Proofs.Soundness
import PoseFilter.Proofs.Gate

/-!
# More noise weighs less

Over the real numbers, reporting a reading with more noise makes the filter more careful in every
respect.  The sigma points and the deviations do not depend on the noise, so the innovation
covariances of two noises differ exactly as the noises do; inversion turns the semi-definite order
around (`posSemidef_inv_sub_inv`), and both the squared distance `zᵀ S⁻¹ z` and what a correction takes
away, `C S⁻¹ Cᵀ`, are monotone in `S⁻¹`.

* `Correction.Measured` : the distance of a correction is that of its innovation, in the metric of the
  innovation covariance.
* `Correction.more_noise_weighs_less` : of two noises, the larger one leaves a distance that is not
  larger and a covariance that is not smaller, and passes every gate that the smaller one passes.
-/

open Matrix

namespace PoseFilter

open FilterState

/-! ### Inversion and the semi-definite order -/

section Inversion

variable {m : Nat} {A B : Matrix (Fin m) (Fin m) ℝ}

theorem posDef_of_posSemidef_sub (hA : A.PosDef) (h : (B - A).PosSemidef) : B.PosDef := by
  rw [← add_sub_cancel A B]
  exact hA.add_posSemidef h

/-- **Inversion turns the semi-definite order around.**  With `D = B - A`, the difference
`A⁻¹ - B⁻¹` is `B⁻¹ D B⁻¹ + B⁻¹ D A⁻¹ D B⁻¹`, and both terms are congruent to semi-definite ones. -/
theorem posSemidef_inv_sub_inv (hA : A.PosDef) (h : (B - A).PosSemidef) :
    (A⁻¹ - B⁻¹).PosSemidef := by
  have hB := posDef_of_posSemidef_sub hA h
  have hunits : IsUnit A ↔ IsUnit B := iff_of_true hA.isUnit hB.isUnit
  have hsymm : ∀ {M : Matrix (Fin m) (Fin m) ℝ}, M.PosSemidef → Mᴴ = M := fun hM => hM.1
  have hleft : A⁻¹ - B⁻¹ = A⁻¹ * (B - A) * B⁻¹ := Matrix.inv_sub_inv hunits
  have hright : A⁻¹ = B⁻¹ + B⁻¹ * (B - A) * A⁻¹ := by
    rw [← neg_sub A B, Matrix.mul_neg, Matrix.neg_mul, ← Matrix.inv_sub_inv hunits.symm]
    abel
  have hsum : A⁻¹ - B⁻¹ =
      B⁻¹ * (B - A) * B⁻¹ᴴ + (B⁻¹ * (B - A)) * A⁻¹ * (B⁻¹ * (B - A))ᴴ := by
    rw [Matrix.conjTranspose_mul, hsymm hB.inv.posSemidef, hsymm h, hleft]
    conv_lhs => rw [hright]
    simp only [Matrix.add_mul, Matrix.mul_assoc]
  rw [hsum]
  exact (h.mul_mul_conjTranspose_same _).add (hA.inv.posSemidef.mul_mul_conjTranspose_same _)

theorem inv_form_le (hA : A.PosDef) (h : (B - A).PosSemidef) (z : Fin m → ℝ) :
    z ⬝ᵥ (B⁻¹ *ᵥ z) ≤ z ⬝ᵥ (A⁻¹ *ᵥ z) := by
  have hform := (posSemidef_inv_sub_inv hA h).dotProduct_mulVec_nonneg z
  rw [star_trivial, sub_mulVec, dotProduct_sub] at hform
  exact sub_nonneg.1 hform

theorem inv_form_nonneg (hA : A.PosDef) (z : Fin m → ℝ) : 0 ≤ z ⬝ᵥ (A⁻¹ *ᵥ z) := by
  simpa using hA.inv.posSemidef.dotProduct_mulVec_nonneg z

theorem inv_form_eq_zero_iff (hA : A.PosDef) (z : Fin m → ℝ) : z ⬝ᵥ (A⁻¹ *ᵥ z) = 0 ↔ z = 0 := by
  constructor
  · intro h
    by_contra hz
    have hpos := hA.inv.dotProduct_mulVec_pos hz
    rw [star_trivial, h] at hpos
    exact lt_irrefl 0 hpos
  · rintro rfl
    exact zero_dotProduct _

end Inversion

/-! ### Corrections made of the same deviations -/

namespace Correction

/-- A valid correction whose distance is that of its innovation in the metric of the innovation
covariance. -/
structure Measured {S : Type} {n m : Nat} (c : Correction S ℝ n m) : Prop where
  valid : c.isValid = true
  posDef : c.numbers.innovationCovariance.toMatrix.PosDef
  distance : c.numbers.mahalanobisSquared = c.numbers.innovation.get ⬝ᵥ
    (c.numbers.innovationCovariance.toMatrix⁻¹ *ᵥ c.numbers.innovation.get)
  distance_nonneg : 0 ≤ c.numbers.mahalanobisSquared
  distance_eq_zero_iff : c.numbers.mahalanobisSquared = 0 ↔ c.numbers.innovation.get = 0

/-- The correction of a state with covariance `P` that the offsets `oᵢ`, the deviations `dᵢ`, the
noise `T` and the innovation `z` make up. -/
structure MadeOf {ι : Type} [Fintype ι] {m : Nat} (c : Correction (PoseState ℝ) ℝ PoseState.dim m)
    (P : Mat ℝ PoseState.dim PoseState.dim) (w : ℝ) (o : ι → Fin PoseState.dim → ℝ)
    (d : ι → Fin m → ℝ) (z : Fin m → ℝ) (T : Matrix (Fin m) (Fin m) ℝ) : Prop where
  prior : c.prior.covariance = P.toGrid
  moments : Moments w o d P.toMatrix T (T + moment w d d) (moment w o d)
  proposal : c.proposal = .ok (Proposal.ofMoments (T + moment w d d) (moment w o d) z)

namespace MadeOf

variable {ι : Type} [Fintype ι] {m : Nat} {c c' : Correction (PoseState ℝ) ℝ PoseState.dim m}
  {P : Mat ℝ PoseState.dim PoseState.dim} {w : ℝ} {o : ι → Fin PoseState.dim → ℝ}
  {d : ι → Fin m → ℝ} {z : Fin m → ℝ} {T T' : Matrix (Fin m) (Fin m) ℝ}

theorem numbers_eq (h : c.MadeOf P w o d z T) :
    c.numbers = Proposal.ofMoments (T + moment w d d) (moment w o d) z := by
  rw [numbers, h.proposal]

theorem measured (h : c.MadeOf P w o d z T) : c.Measured := by
  have hS := h.moments.posDef_innovation
  refine ⟨isValid_iff.2 (rejection_of_ok h.proposal), ?_, ?_, ?_, ?_⟩
  · rwa [h.numbers_eq, Proposal.ofMoments, Mat.toMatrix_ofMatrix]
  · rw [h.numbers_eq, Proposal.ofMoments, Mat.toMatrix_ofMatrix, Column.get_ofFn_eq]
  · rw [h.numbers_eq]
    exact inv_form_nonneg hS z
  · rw [h.numbers_eq, Proposal.ofMoments, Column.get_ofFn_eq]
    exact inv_form_eq_zero_iff hS z

theorem commit_eq [Diagonalization] (h : c.MadeOf P w o d z T) :
    c.commit.result = .ok () ∧ c.commit.state.covariance = (Mat.ofMatrix (P.toMatrix -
      moment w o d * (T + moment w d d)⁻¹ * (moment w o d)ᵀ)).toGrid := by
  have hwritten := (commit_ofMoments h.proposal h.prior h.moments.posDef_innovation
    h.moments.posterior_posSemidef).trans (if_pos (PoseState.meanIsFinite_eq _))
  rw [hwritten]
  exact ⟨rfl, rfl⟩

theorem posSemidef_innovation_sub (hle : (T' - T).PosSemidef) :
    (T' + moment w d d - (T + moment w d d)).PosSemidef := by
  rwa [add_sub_add_right_eq_sub]

theorem distance_le (h : c.MadeOf P w o d z T) (h' : c'.MadeOf P w o d z T')
    (hle : (T' - T).PosSemidef) : c'.numbers.mahalanobisSquared ≤ c.numbers.mahalanobisSquared := by
  rw [h.numbers_eq, h'.numbers_eq]
  exact inv_form_le h.moments.posDef_innovation (posSemidef_innovation_sub hle) z

/-- What the smaller noise takes away more is congruent to the difference of the inverses. -/
theorem posSemidef_posterior_sub (h : c.MadeOf P w o d z T) (hle : (T' - T).PosSemidef) :
    (P.toMatrix - moment w o d * (T' + moment w d d)⁻¹ * (moment w o d)ᵀ -
      (P.toMatrix - moment w o d * (T + moment w d d)⁻¹ * (moment w o d)ᵀ)).PosSemidef := by
  rw [sub_sub_sub_cancel_left, ← Matrix.sub_mul, ← Matrix.mul_sub,
    ← conjTranspose_eq_transpose_of_trivial]
  exact (posSemidef_inv_sub_inv h.moments.posDef_innovation
    (posSemidef_innovation_sub hle)).mul_mul_conjTranspose_same _

end MadeOf

end Correction

/-! ### Two noises -/

section Gate

variable [Diagonalization] {V V' : Type} {t : Tracker ℝ}
  {model : MeasurementModel (PoseState ℝ) V ℝ} {model' : MeasurementModel (PoseState ℝ) V' ℝ}

theorem Tracker.applied_of_le {d : ℝ} (h : (t.correct model).result = .applied d)
    (hvalid : (Correction.begin t.state model' t.config.params).isValid = true)
    (hwritten : (Correction.begin t.state model' t.config.params).commit.result = .ok ())
    (hle : (Correction.begin t.state model' t.config.params).numbers.mahalanobisSquared ≤
      (Correction.begin t.state model t.config.params).numbers.mahalanobisSquared) :
    ∃ d' ≤ d, (t.correct model').result = .applied d' := by
  obtain ⟨-, hgate, -, rfl⟩ := (applied_iff rfl).1 h
  refine ⟨_, hle, (applied_iff rfl).2 ⟨Correction.isValid_iff.1 hvalid, ?_, hwritten, rfl⟩⟩
  cases hg : t.config.gate with
  | none => rfl
  | some g =>
    rw [hg] at hgate
    exact decide_eq_false fun hlt => of_decide_eq_false hgate (hlt.trans_le hle)

end Gate

theorem Reading.exists_madeOf [Diagonalization] {s : PoseState ℝ} (hs : s.Sound)
    {params : UnscentedParams ℝ} {w : SigmaWeights ℝ PoseState.dim}
    (hw : params.weights PoseState.dim = .ok w) (r : Reading ℝ) :
    ∃ (P : Mat ℝ PoseState.dim PoseState.dim) (share : ℝ)
      (o : Fin (2 * PoseState.dim) → Fin PoseState.dim → ℝ)
      (d : Fin (2 * PoseState.dim) → Fin r.model.dim → ℝ),
      ∀ noise : Mat ℝ r.model.dim r.model.dim, noise.toMatrix.PosDef →
        Correction.MadeOf (Correction.begin s (r.model.withNoise noise) params) P share o d
          (r.residual s) noise.toMatrix := by
  obtain ⟨p, hp, hpd⟩ := hs.posDef
  obtain ⟨root, share, -, hnoise⟩ := Reading.propose_withNoise hs.unit hp hpd.posSemidef r hw
  refine ⟨p, share, outerOffsets root, r.model.outerDeviations s root, fun noise hpos => ?_⟩
  obtain ⟨hmoments, hproposal⟩ := hnoise noise hpos
  exact ⟨hp, hmoments, hproposal⟩

/-- **More noise weighs less.**  For every sound state, all accepted parameters and every reading of
the four kinds, take two noises, the smaller one positive definite, the larger one above it in the
semi-definite order.  Both corrections are valid and have the same innovation, and the distance of
each is the form of the inverse of its innovation covariance there, which is not negative and vanishes
with the innovation only.  The distance under the larger noise is not larger, both are written, and the
covariance written under the larger noise is not smaller.  A tracker in that state that applies the
reading with the smaller noise applies it with the larger one. -/
theorem Correction.more_noise_weighs_less [Diagonalization] {s : PoseState ℝ} (hs : s.Sound)
    {params : UnscentedParams ℝ} {w : SigmaWeights ℝ PoseState.dim}
    (hw : params.weights PoseState.dim = .ok w) (r : Reading ℝ)
    {less more : Mat ℝ r.model.dim r.model.dim} (hless : less.toMatrix.PosDef)
    (hle : (more.toMatrix - less.toMatrix).PosSemidef) :
    let c : Correction (PoseState ℝ) ℝ PoseState.dim r.model.dim :=
      begin s (r.model.withNoise less) params
    let c' : Correction (PoseState ℝ) ℝ PoseState.dim r.model.dim :=
      begin s (r.model.withNoise more) params
    c.Measured ∧ c'.Measured ∧ c'.numbers.innovation = c.numbers.innovation ∧
      c'.numbers.mahalanobisSquared ≤ c.numbers.mahalanobisSquared ∧
      (∃ p p' : Mat ℝ PoseState.dim PoseState.dim,
        c.commit.result = .ok () ∧ c.commit.state.covariance = p.toGrid ∧
        c'.commit.result = .ok () ∧ c'.commit.state.covariance = p'.toGrid ∧
        (p'.toMatrix - p.toMatrix).PosSemidef) ∧
      ∀ t : Tracker ℝ, t.state = s → t.config.params = params →
        ∀ d, (t.correctBy (r.withNoise less)).result = .applied d →
          ∃ d' ≤ d, (t.correctBy (r.withNoise more)).result = .applied d' := by
  intro c c'
  obtain ⟨P, share, o, d, hmade⟩ := r.exists_madeOf hs hw
  have h : c.MadeOf P share o d (r.residual s) less.toMatrix := hmade less hless
  have h' : c'.MadeOf P share o d (r.residual s) more.toMatrix :=
    hmade more (posDef_of_posSemidef_sub hless hle)
  have hdistance := h.distance_le h' hle
  obtain ⟨hwritten, hcov⟩ := h.commit_eq
  obtain ⟨hwritten', hcov'⟩ := h'.commit_eq
  refine ⟨h.measured, h'.measured, ?_, hdistance,
    ⟨_, _, hwritten, hcov, hwritten', hcov', ?_⟩, ?_⟩
  · rw [h.numbers_eq, h'.numbers_eq]
    rfl
  · rw [Mat.toMatrix_ofMatrix, Mat.toMatrix_ofMatrix]
    exact h.posSemidef_posterior_sub hle
  · rintro t rfl rfl d hd
    rw [Tracker.correctBy_withNoise] at hd ⊢
    exact Tracker.applied_of_le hd h'.measured.valid hwritten' hdistance

/-- A pose of a new body, reported with twice the noise, leaves at least as much uncertainty. -/
theorem Correction.more_noise_weighs_less_new_pose :
    let r : Reading ℝ := .pose ⟨⟨1, 2, 3⟩, ⟨0.8, 0.6, 0, 0⟩⟩ (Mat.scalar 6 1)
    let once : Mat ℝ r.model.dim r.model.dim := Mat.scalar 6 1
    let twice : Mat ℝ r.model.dim r.model.dim := Mat.scalar 6 2
    once.toMatrix.PosDef ∧ (twice.toMatrix - once.toMatrix).PosSemidef ∧
      (begin (PoseState.initial : PoseState ℝ) (r.model.withNoise twice)
          UnscentedParams.standard).numbers.mahalanobisSquared ≤
        (begin (PoseState.initial : PoseState ℝ) (r.model.withNoise once)
          UnscentedParams.standard).numbers.mahalanobisSquared := by
  intro r once twice
  obtain ⟨w, hw⟩ := UnscentedParams.exists_weights_standard (n := PoseState.dim) (by decide)
  have hsound : (PoseState.initial : PoseState ℝ).Sound := by
    refine ⟨?_, Mat.scalar PoseState.dim PoseState.initialVariance, rfl, Mat.posDef_scalar ?_⟩
    · norm_num [Quaternion.IsUnit, Quaternion.normSq, PoseState.initial, Quaternion.identity]
    · norm_num [PoseState.initialVariance]
  have honce : once.toMatrix.PosDef := Mat.posDef_scalar (n := 6) one_pos
  have hle : ((Mat.scalar 6 (2 : ℝ)).toMatrix - (Mat.scalar 6 1).toMatrix).PosSemidef := by
    rw [Mat.toMatrix_scalar, Mat.toMatrix_scalar, ← sub_smul]
    exact Matrix.PosSemidef.one.smul (by norm_num)
  exact ⟨honce, hle, (more_noise_weighs_less hsound hw r honce hle).2.2.2.1⟩

end PoseFilter
