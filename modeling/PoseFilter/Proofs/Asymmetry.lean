import PoseFilter.Proofs.Correction
import PoseFilter.Proofs.Phases
import PoseFilter.Proofs.Results

/-!
# Noise that is not quite symmetric

The covariance of a measurement's noise is checked for symmetry up to a tolerance and then factored.
The factorization reads the lower triangle only, while the innovation covariance gets the symmetric
part, and the two differ by half of the asymmetry.  So the check promises definiteness of the
symmetric part up to a slack that grows with the dimension and with the largest entry.  The tolerance
is relative for entries above one only; below, it is absolute, and a noise of small variances can be
accepted although its symmetric part is far from definite.

* `propose_ne_noise_error_iff` : which noise is accepted.
* `Mat.posDef_symmetrized_add` : definiteness of the symmetric part up to the slack.
* `accepted_noise_posDef_up_to_slack` : what acceptance promises, in both directions.
* `indefinite_noise_accepted` : a noise that is accepted and has an indefinite symmetric part.
-/

open Matrix

namespace PoseFilter

open FilterState

/-! ### Triangle and symmetric part -/

theorem abs_form_le {n : Nat} {E : Matrix (Fin n) (Fin n) ℝ} {ε : ℝ} (hε : 0 ≤ ε)
    (hE : ∀ i j, |E i j| ≤ if i = j then 0 else ε) (x : Fin n → ℝ) :
    |x ⬝ᵥ (E *ᵥ x)| ≤ ε * (n - 1) * (x ⬝ᵥ x) := by
  have hentry : ∀ i j, |x i * (E i j * x j)| ≤
      ε * (|x i| * |x j|) - if i = j then ε * x i ^ 2 else 0 := by
    intro i j
    have hprod := mul_le_mul_of_nonneg_right (hE i j) (mul_nonneg (abs_nonneg (x i)) (abs_nonneg (x j)))
    rw [abs_mul, abs_mul, mul_left_comm]
    split_ifs at hprod ⊢ with hij
    · rw [hij, abs_mul_abs_self, ← sq] at *
      linarith
    · linarith
  have hsquare : (∑ i, |x i|) ^ 2 ≤ n * ∑ i, x i ^ 2 := by
    simpa [sq_abs] using sq_sum_le_card_mul_sum_sq (s := Finset.univ) (f := fun i => |x i|)
  have hdot : x ⬝ᵥ x = ∑ i, x i ^ 2 := Finset.sum_congr rfl fun i _ => (sq (x i)).symm
  calc |x ⬝ᵥ (E *ᵥ x)| = |∑ i, ∑ j, x i * (E i j * x j)| := by
        simp only [dotProduct, mulVec, Finset.mul_sum]
    _ ≤ ∑ i, ∑ j, |x i * (E i j * x j)| :=
        (Finset.abs_sum_le_sum_abs _ _).trans
          (Finset.sum_le_sum fun i _ => Finset.abs_sum_le_sum_abs _ _)
    _ ≤ ∑ i, ∑ j, (ε * (|x i| * |x j|) - if i = j then ε * x i ^ 2 else 0) :=
        Finset.sum_le_sum fun i _ => Finset.sum_le_sum fun j _ => hentry i j
    _ = ε * (∑ i, |x i|) ^ 2 - ε * ∑ i, x i ^ 2 := by
        simp only [Finset.sum_sub_distrib, Finset.sum_ite_eq, Finset.mem_univ, if_true,
          ← Finset.mul_sum, ← Finset.sum_mul, sq (∑ i, |x i|)]
    _ ≤ ε * (n - 1) * (x ⬝ᵥ x) := by
        rw [hdot]
        linarith [mul_le_mul_of_nonneg_left hsquare hε]

namespace Mat

variable {n : Nat} {r : Mat ℝ n n} {t bound : ℝ}

theorem abs_symmetrized_sub_mirrored_le (ht : 0 ≤ t) (h : r.SymmetricUpTo t) (hone : 1 ≤ bound)
    (hbound : ∀ i j, |r.get i j| ≤ bound) (i j : Fin n) :
    |(r.symmetrized.toMatrix - r.mirrored.toMatrix) i j| ≤
      if i = j then 0 else t * bound / 2 := by
  have hoff : |(r.get j i - r.get i j) / 2| ≤ t * bound / 2 := by
    have hsize := max_le (max_le hone (hbound i j)) (hbound j i)
    rw [abs_div, abs_two, abs_sub_comm]
    linarith [h i j, mul_le_mul_of_nonneg_left hsize ht]
  rw [Matrix.sub_apply, toMatrix_apply, toMatrix_apply, get_symmetrized, mirrored, get_ofFn]
  by_cases hij : i = j
  · subst hij
    norm_num
    ring_nf
  · rw [if_neg hij]
    refine le_trans (le_of_eq ?_) hoff
    split_ifs with hle
    · congr 1
      ring
    · rw [← abs_neg]
      congr 1
      ring

/-- The slack in definiteness that an asymmetry of `t` comes to. -/
theorem abs_form_symmetrized_sub_le (ht : 0 ≤ t) (h : r.SymmetricUpTo t) (hone : 1 ≤ bound)
    (hbound : ∀ i j, |r.get i j| ≤ bound) (x : Fin n → ℝ) :
    |x ⬝ᵥ (r.symmetrized.toMatrix *ᵥ x) - x ⬝ᵥ (r.mirrored.toMatrix *ᵥ x)| ≤
      (n - 1) / 2 * (t * bound) * (x ⬝ᵥ x) := by
  have hhalf : 0 ≤ t * bound / 2 := by
    have := mul_nonneg ht (zero_le_one.trans hone)
    linarith
  have hform := abs_form_le hhalf (abs_symmetrized_sub_mirrored_le ht h hone hbound) x
  rw [sub_mulVec, dotProduct_sub] at hform
  exact hform.trans (le_of_eq (by ring))

/-- **The triangle decides the symmetric part up to the slack.** -/
theorem posDef_symmetrized_add (ht : 0 ≤ t) (h : r.SymmetricUpTo t) (hone : 1 ≤ bound)
    (hbound : ∀ i j, |r.get i j| ≤ bound) {c : ℝ}
    (hpd : (r.mirrored.toMatrix + (c - (n - 1) / 2 * (t * bound)) • 1).PosDef) :
    (r.symmetrized.toMatrix + c • 1).PosDef := by
  refine .of_dotProduct_mulVec_pos (Matrix.isHermitian_iff_isSymm.2 ?_) fun x hx => ?_
  · exact (isSymm_symmetrized r).add (Matrix.isSymm_one.smul c)
  · have hpos := hpd.dotProduct_mulVec_pos hx
    have hform := (abs_le.1 (abs_form_symmetrized_sub_le ht h hone hbound x)).1
    simp only [star_trivial, add_mulVec, dotProduct_add, smul_mulVec, one_mulVec, dotProduct_smul,
      smul_eq_mul] at hpos ⊢
    linarith

end Mat

/-! ### The check in a correction -/

section Check

theorem Proposal.symmetryTolerance_nonneg : (0 : ℝ) ≤ symmetryTolerance := by
  norm_num [symmetryTolerance]

theorem Proposal.soundNoise_iff {m : Nat} {r : Mat ℝ m m} : soundNoise r = true ↔
    r.mirrored.toMatrix.PosDef ∧ r.SymmetricUpTo 1e-12 := by
  rw [soundNoise, Mat.isFinite_eq, Bool.true_and, Bool.and_eq_true,
    Mat.isSymmetric_iff symmetryTolerance_nonneg, Mat.cholesky?_isSome_iff_mirrored, and_comm]
  rfl

variable {α : Type} [Spectral α] {S V : Type} [FilterState S α] {state : S}
  {model : MeasurementModel S V α} {params : UnscentedParams α}

theorem generate_ne_noise_error :
    SigmaPoints.generate state params ≠ .error .measurementCovarianceNotPositiveDefinite := by
  intro h
  rcases bind_eq_error_iff.1 h with h | ⟨w, -, h⟩
  · unfold UnscentedParams.weights at h
    dsimp only at h
    split_ifs at h <;> cases h
  · rcases bind_eq_error_iff.1 h with h | ⟨p, -, h⟩
    · unfold covariance? at h
      dsimp only at h
      split at h <;> cases h
    · cases hfin : p.isFinite <;> cases hroot : (p.scale w.spread).squareRoot? <;>
        simp [hfin, hroot, throw, throwThe, MonadExceptOf.throw, bind, Except.bind, pure,
          Except.pure] at h

/-- **Which noise is accepted.**  Nothing but the check of the noise reports the noise. -/
theorem propose_ne_noise_error_iff {r : Mat α model.dim model.dim}
    (hr : model.covariance state = r.toGrid) :
    propose state model params ≠ .error .measurementCovarianceNotPositiveDefinite ↔
      Proposal.soundNoise r = true := by
  have hlength : ∀ a : Array α,
      Proposal.checkLength model.dim a ≠ .error .measurementCovarianceNotPositiveDefinite := by
    intro a h
    unfold Proposal.checkLength at h
    split at h <;> cases h
  constructor
  · intro h
    by_contra hsound
    exact h (propose_of_unsoundNoise hr (Bool.eq_false_iff.2 hsound) params)
  · intro hsound h
    rw [propose, hr, Proposal.checkNoise_toGrid, if_pos hsound] at h
    obtain ⟨_, -, h⟩ := (bind_eq_error_iff.1 h).resolve_left fun h => by cases h
    obtain ⟨sigma, -, h⟩ := (bind_eq_error_iff.1 h).resolve_left generate_ne_noise_error
    rcases bind_eq_error_iff.1 h with h | ⟨deviations, -, h⟩
    · obtain ⟨_, h⟩ := exists_error_of_mapM h
      exact hlength _ h
    · obtain ⟨residual, -, h⟩ := (bind_eq_error_iff.1 h).resolve_left (hlength _)
      unfold Proposal.ofDeviations at h
      dsimp only at h
      split at h
      · cases h
      · split at h <;> cases h

end Check

section Exact

variable {S V : Type} [FilterState S ℝ]

/-- Of the noise, only its symmetric part enters a proposal. -/
theorem Proposal.ofDeviations_symmetrized {n m : Nat} (r : Mat ℝ m m) (w : SigmaWeights ℝ n)
    (offsets : Mat ℝ (2 * n + 1) n) (deviations : Mat ℝ (2 * n + 1) m) (residual : Column ℝ m) :
    ofDeviations r.symmetrized w offsets deviations residual =
      ofDeviations r w offsets deviations residual := by
  have hsum : ∀ v : Mat ℝ m m, (r.symmetrized + v).symmetrized = (r + v).symmetrized := by
    intro v
    refine Mat.ext_get fun i j => ?_
    simp only [Mat.get_symmetrized, Mat.get_add]
    ring
  unfold ofDeviations
  simp only [hsum]

theorem propose_symmetrized [Diagonalization] {state : S} {model : MeasurementModel S V ℝ}
    {params : UnscentedParams ℝ} {r : Mat ℝ model.dim model.dim}
    (hr : model.covariance state = r.toGrid) (hsound : Proposal.soundNoise r = true)
    (hpd : r.symmetrized.toMatrix.PosDef) :
    propose state (model.withNoise r.symmetrized) params = propose state model params := by
  have hcheck : Proposal.checkNoise model.dim (model.covariance state) = .ok r := by
    rw [hr, Proposal.checkNoise_toGrid, if_pos hsound]
  have hcheck' : Proposal.checkNoise model.dim r.symmetrized.toGrid = .ok r.symmetrized :=
    Proposal.checkNoise_of_posDef hpd
  simp only [propose, MeasurementModel.withNoise, hcheck, hcheck', bind, Except.bind,
    Proposal.ofDeviations_symmetrized, MeasurementModel.residual]

/-- **What the acceptance of noise promises.**  For every state, measurement model of any dimension
`m`, parameters and noise `R`: `R` is accepted exactly if the symmetric matrix with its lower triangle
is positive definite and it is symmetric up to `1e-12`, which is relative for entries above one.  Then,
with a bound of at least one on its entries and `ε = 1e-12 (m - 1) / 2` of that bound, the symmetric
part becomes positive definite when `ε` is added to the diagonal; and it is positive definite itself if
the triangle is so by more than `ε`, if `R` is exactly symmetric or if `m ≤ 1`.  In these cases the
correction is the one by the symmetric part. -/
theorem accepted_noise_posDef_up_to_slack [Diagonalization] (state : S)
    (model : MeasurementModel S V ℝ) (params : UnscentedParams ℝ)
    {r : Mat ℝ model.dim model.dim} (hr : model.covariance state = r.toGrid) :
    (propose state model params ≠ .error .measurementCovarianceNotPositiveDefinite ↔
      r.mirrored.toMatrix.PosDef ∧
        ∀ i j, |r.get i j - r.get j i| ≤ 1e-12 * max (max 1 |r.get i j|) |r.get j i|) ∧
    (propose state model params ≠ .error .measurementCovarianceNotPositiveDefinite →
      (∀ bound, 1 ≤ bound → (∀ i j, |r.get i j| ≤ bound) →
        let ε : ℝ := (model.dim - 1) / 2 * (1e-12 * bound)
        (r.symmetrized.toMatrix + ε • 1).PosDef ∧
          ((r.mirrored.toMatrix - ε • 1).PosDef → r.symmetrized.toMatrix.PosDef)) ∧
      (r.toMatrix.IsSymm ∨ model.dim ≤ 1 → r.symmetrized.toMatrix.PosDef) ∧
      (r.symmetrized.toMatrix.PosDef →
        propose state (model.withNoise r.symmetrized) params = propose state model params)) := by
  rw [propose_ne_noise_error_iff hr]
  refine ⟨Proposal.soundNoise_iff, fun hsound => ?_⟩
  obtain ⟨hpd, hsymm⟩ := Proposal.soundNoise_iff.1 hsound
  have htol : (0 : ℝ) ≤ 1e-12 := by norm_num
  refine ⟨fun bound hone hbound => ⟨?_, fun hmargin => ?_⟩, fun hexact => ?_,
    propose_symmetrized hr hsound⟩
  · refine Mat.posDef_symmetrized_add htol hsymm hone hbound ?_
    rw [sub_self, zero_smul, add_zero]
    exact hpd
  · have hzero := Mat.posDef_symmetrized_add (c := 0) htol hsymm hone hbound (by
      rwa [zero_sub, neg_smul, ← sub_eq_add_neg])
    rwa [zero_smul, add_zero] at hzero
  · have hsymmetric : r.toMatrix.IsSymm := by
      refine hexact.elim id fun hone => ?_
      refine Matrix.IsSymm.ext fun i j => ?_
      have hij : i = j := Fin.ext (by omega)
      rw [hij]
    rw [Mat.symmetrized_of_isSymm hsymmetric]
    rwa [Mat.mirrored_of_isSymm hsymmetric] at hpd

end Exact

/-! ### Noise coupled on one side of the diagonal -/

/-- Variances `v`, and covariances `u` that stand above the diagonal only. -/
def Mat.oneSided (n : Nat) (v u : ℝ) : Mat ℝ n n :=
  Mat.ofFn fun i j => if i = j then v else if i < j then u else 0

theorem Mat.mirrored_oneSided (n : Nat) (v u : ℝ) : (oneSided n v u).mirrored = scalar n v := by
  refine ext_get fun i j => ?_
  simp only [mirrored, oneSided, scalar, get_ofFn]
  rcases lt_trichotomy i j with h | rfl | h
  · simp [h.ne, h.ne', h.not_ge, h.not_gt]
  · simp
  · simp [h.ne', h.le, h.not_gt]

/-- Such noise is accepted up to the tolerance, however small the variances. -/
theorem soundNoise_oneSided {n : Nat} {v u : ℝ} (hv : 0 < v) (hu : 0 ≤ u) (hle : u ≤ 1e-12) :
    Proposal.soundNoise (Mat.oneSided n v u) = true := by
  refine Proposal.soundNoise_iff.2 ⟨?_, fun i j => ?_⟩
  · rw [Mat.mirrored_oneSided]
    exact Mat.posDef_scalar hv
  · have hgap : |(Mat.oneSided n v u).get i j - (Mat.oneSided n v u).get j i| ≤ u := by
      simp only [Mat.oneSided, Mat.get_ofFn]
      rcases lt_trichotomy i j with h | rfl | h
      · simp [h.ne, h.ne', h, h.not_gt, abs_of_nonneg hu]
      · simpa using hu
      · simp [h.ne, h.ne', h, h.not_gt, abs_of_nonneg hu]
    have hsize : (1 : ℝ) ≤ max (max 1 |(Mat.oneSided n v u).get i j|)
        |(Mat.oneSided n v u).get j i| := le_max_of_le_left (le_max_left _ _)
    linarith

theorem not_posDef_oneSided {v u : ℝ} (h : 2 * v < u) :
    ¬(Mat.oneSided 3 v u).symmetrized.toMatrix.PosDef := by
  intro hpd
  have hform : ![1, -1, 0] ⬝ᵥ ((Mat.oneSided 3 v u).symmetrized.toMatrix *ᵥ ![1, -1, 0]) =
      2 * v - u := by
    simp [dotProduct, mulVec, Fin.sum_univ_succ, Mat.get_symmetrized, Mat.oneSided]
    ring
  have hpos := hpd.dotProduct_mulVec_pos (x := ![1, -1, 0]) (by simp)
  rw [star_trivial, hform] at hpos
  linarith

/-- A position with unit noise that is off by half of the tolerance. -/
theorem accepted_noise_posDef_up_to_slack_unit :
    let r := Mat.oneSided 3 1 5e-13
    propose (PoseState.initial : PoseState ℝ) (Measurement.position ⟨1, 2, 3⟩ r)
        UnscentedParams.standard ≠ .error .measurementCovarianceNotPositiveDefinite ∧
      r.symmetrized.toMatrix.PosDef := by
  intro r
  obtain ⟨haccepted, hthen⟩ := accepted_noise_posDef_up_to_slack (PoseState.initial : PoseState ℝ)
    (Measurement.position ⟨1, 2, 3⟩ r) UnscentedParams.standard (r := r) rfl
  have hsound := Proposal.soundNoise_iff.1
    (soundNoise_oneSided (n := 3) one_pos (by norm_num : (0 : ℝ) ≤ 5e-13) (by norm_num))
  have hpassed := haccepted.2 hsound
  have hbound : ∀ i j, |r.get i j| ≤ 1 := fun i j => by
    simp only [r, Mat.oneSided, Mat.get_ofFn]
    split_ifs <;> norm_num
  have hmargin : (r.mirrored.toMatrix - (((3 : ℕ) - 1) / 2 * (1e-12 * 1) : ℝ) • 1).PosDef := by
    rw [Mat.mirrored_oneSided, Mat.toMatrix_scalar, ← sub_smul]
    exact Matrix.PosDef.one.smul (by norm_num)
  exact ⟨hpassed, ((hthen hpassed).1 1 le_rfl hbound).2 hmargin⟩

/-- **A noise of small variances is accepted although it is indefinite.** -/
theorem indefinite_noise_accepted :
    let r := Mat.oneSided 3 1e-14 9e-13
    propose (PoseState.initial : PoseState ℝ) (Measurement.position ⟨0, 0, 0⟩ r)
        UnscentedParams.standard ≠ .error .measurementCovarianceNotPositiveDefinite ∧
      ¬r.symmetrized.toMatrix.PosDef := by
  intro r
  have hsound : Proposal.soundNoise r = true :=
    soundNoise_oneSided (by norm_num) (by norm_num) (by norm_num)
  have hr : (Measurement.position ⟨0, 0, 0⟩ r).covariance (PoseState.initial : PoseState ℝ) =
      r.toGrid := rfl
  exact ⟨(propose_ne_noise_error_iff hr).2 hsound, not_posDef_oneSided (by norm_num)⟩

end PoseFilter
