import PoseFilter.Proofs.Readings

/-!
# The exact correction in closed form

A reading observes rows of the tangent space, so its sigma points carry the moments of a linear
observation: with `H` the selector of the rows (`Reading.selector`), the deviations are `H oᵢ`, and
the sums over the points are `H P Hᵀ` and `P Hᵀ`.  The unscented correction of a pose is then the
Kalman update

* `S = H P Hᵀ + R`, `K = P Hᵀ S⁻¹`, mean `x ⊕ K z`, covariance `P - K H P`

(`Correction.kalman_form`), in which the parameters of the sigma points do not appear.  Readings that
observe the orientation need every rotation between the points to be resolved by the logarithm.
-/

open Matrix

namespace PoseFilter

open FilterState

/-! ### Moments of a linear observation -/

section Linear

variable {ι : Type} [Fintype ι] {a b m : Nat} {w : ℝ}

theorem moment_mulVec_right (u : ι → Fin a → ℝ) (v : ι → Fin b → ℝ)
    (H : Matrix (Fin m) (Fin b) ℝ) : moment w u (fun i => H *ᵥ v i) = moment w u v * Hᵀ := by
  simp only [moment, Matrix.smul_mul, Matrix.sum_mul, vecMulVec_mul, vecMul_transpose]

theorem moment_mulVec (u : ι → Fin a → ℝ) (H : Matrix (Fin m) (Fin a) ℝ) :
    moment w (fun i => H *ᵥ u i) (fun i => H *ᵥ u i) = H * moment w u u * Hᵀ := by
  rw [moment_mulVec_right]
  simp only [moment, Matrix.mul_smul, Matrix.mul_sum, mul_vecMulVec]

end Linear

namespace Reading

/-- The matrix that selects the tangent rows behind a reading. -/
noncomputable def selector (r : Reading ℝ) : Matrix (Fin r.model.dim) (Fin PoseState.dim) ℝ :=
  Matrix.of fun j k => if k = r.row j then 1 else 0

theorem selector_mulVec (r : Reading ℝ) (x : Fin PoseState.dim → ℝ) :
    r.selector *ᵥ x = fun j => x (r.row j) := by
  funext j
  simp [selector, mulVec, dotProduct]

variable {s : PoseState ℝ} {root : Mat ℝ PoseState.dim PoseState.dim} {r : Reading ℝ}

theorem outerDeviations_eq (hs : s.orientation.IsUnit)
    (h : r.turns = true → ∀ i,
      Rotation.Resolved (PoseState.block ((SigmaPoints.offsetsOf root).row i) 3 (by decide))) :
    r.model.outerDeviations s root = fun i => r.selector *ᵥ outerOffsets root i := by
  funext i
  rw [selector_mulVec]
  exact deviation_eq hs r _ fun ht => h ht i.succ

end Reading

/-! ### The Kalman update -/

section Closed

variable [Diagonalization]

/-- **The unscented correction of a pose is the Kalman update.**  For every state with a unit
orientation and a positive semi-definite covariance `P`, every reading with positive definite noise
`R` and all accepted parameters: the innovation is `z` (measured minus predicted), its covariance is
`S = H P Hᵀ + R`, the gain is `K = P Hᵀ S⁻¹`, and what is committed has the mean moved along `K z` and
the covariance `P - K H P`.  A reading that observes the orientation asks that the rotation part of
every offset be resolved. -/
theorem Correction.kalman_form (s : PoseState ℝ) (hs : s.orientation.IsUnit)
    {p : Mat ℝ PoseState.dim PoseState.dim} (hp : s.covariance = p.toGrid)
    (hpsd : p.toMatrix.PosSemidef) (r : Reading ℝ) (hr : r.noise.toMatrix.PosDef)
    (params : UnscentedParams ℝ) {w : SigmaWeights ℝ PoseState.dim}
    (hw : params.weights PoseState.dim = .ok w)
    (hres : r.turns = true → ∀ sigma, SigmaPoints.generate s params = .ok sigma → ∀ i,
      Rotation.Resolved (PoseState.block (sigma.offsets.row i) 3 (by decide))) :
    let H := r.selector
    let P := p.toMatrix
    let z := r.residual s
    let S := H * P * Hᵀ + r.noise.toMatrix
    let K := P * Hᵀ * S⁻¹
    let c := begin s r.model params
    c.proposal = .ok
        { innovation := Column.ofFn z
          innovationCovariance := Mat.ofMatrix S
          gain := Mat.ofMatrix K
          change := Column.ofFn (K *ᵥ z)
          mahalanobisSquared := z ⬝ᵥ (S⁻¹ *ᵥ z) } ∧
      c.rejection = none ∧
      c.commit = ⟨.ok (), { s.retract (Column.ofFn (K *ᵥ z)) with
        covariance := (Mat.ofMatrix (P - K * H * P)).toGrid }⟩ := by
  intro H P z S K c
  obtain ⟨root, share, hg, hmoments, hprop⟩ := Reading.propose_eq hs hp hpsd r hr hw
  have hdev : r.model.outerDeviations s root = fun i => H *ᵥ outerOffsets root i :=
    Reading.outerDeviations_eq hs fun ht i => hres ht _ hg i
  have hcross : moment share (outerOffsets root) (r.model.outerDeviations s root) = P * Hᵀ := by
    rw [hdev, moment_mulVec_right, ← hmoments.prior]
  have hinnov : r.noise.toMatrix + moment share (r.model.outerDeviations s root)
      (r.model.outerDeviations s root) = S := by
    have hmoment := moment_mulVec (w := share) (outerOffsets root) H
    rw [hdev, hmoment, ← hmoments.prior, add_comm]
  rw [hcross, hinnov] at hprop hmoments
  have hc : c.proposal = .ok (Proposal.ofMoments S (P * Hᵀ) z) := hprop
  refine ⟨hc, rejection_of_ok hc, ?_⟩
  -- `P` is symmetric, so what is taken away is `K (P Hᵀ)ᵀ = K H P`
  have hpost : P - P * Hᵀ * S⁻¹ * (P * Hᵀ)ᵀ = P - K * H * P := by
    rw [Matrix.transpose_mul, Matrix.transpose_transpose, (isSymm_of_posSemidef hpsd).eq,
      ← Matrix.mul_assoc]
  have hcommit := commit_ofMoments hc hp hmoments.posDef_innovation hmoments.posterior_posSemidef
  rw [hpost] at hcommit
  rw [hcommit]
  exact if_pos (PoseState.meanIsFinite_eq _)

end Closed

/-! ### Isotropic covariances -/

theorem Mat.schur_scalar {n : Nat} {v : ℝ} (hv : 0 < v) : (scalar (n + 1) v).schur = scalar n v := by
  have hcorner : (scalar (n + 1) v).corner = v := by simp [corner]
  refine ext_get fun i j => ?_
  rw [get_schur (by rwa [hcorner])]
  simp [Fin.ext_iff]

theorem Mat.cholesky?_scalar {v : ℝ} (hv : 0 < v) :
    ∀ n : Nat, (scalar n v).cholesky? = some (scalar n (Real.sqrt v)) := by
  intro n
  induction n with
  | zero => exact congrArg some (ext_get fun i => i.elim0)
  | succ n ih =>
    have hcorner : (scalar (n + 1) v).corner = v := by simp [corner]
    rw [cholesky?_succ, schur_scalar hv, ih, if_pos (by rwa [hcorner]), Option.map_some]
    refine congrArg some (ext_get fun i j => ?_)
    cases i using Fin.cases with
    | zero =>
      cases j using Fin.cases with
      | zero => simp [hcorner]
      | succ j => simp [(Fin.succ_ne_zero j).symm]
    | succ i =>
      cases j using Fin.cases with
      | zero => simp
      | succ j => simp

theorem SigmaPoints.generate_isotropic [Diagonalization] {s : PoseState ℝ} {v : ℝ} (hv : 0 < v)
    (hs : s.covariance = PoseState.isotropic v) {params : UnscentedParams ℝ}
    {w : SigmaWeights ℝ PoseState.dim} (hw : params.weights PoseState.dim = .ok w) :
    generate s params = .ok (along s (Mat.scalar PoseState.dim (Real.sqrt (v * w.spread))) w) := by
  have hscale : (Mat.scalar PoseState.dim v).scale w.spread =
      Mat.scalar PoseState.dim (v * w.spread) :=
    Mat.ext_get fun i j => by simp
  have hroot : ((Mat.scalar PoseState.dim v).scale w.spread).squareRoot? =
      some (Mat.scalar PoseState.dim (Real.sqrt (v * w.spread))) := by
    rw [hscale, Mat.squareRoot?, if_pos (Mat.isFinite_eq _),
      Mat.cholesky?_scalar (mul_pos hv (UnscentedParams.weights_spec hw).spread_pos)]
  exact generate_of_root (S := PoseState ℝ) hs hw hroot

theorem SigmaPoints.eq_zero_or_pair {n : Nat} (i : Fin (2 * n + 1)) :
    i = 0 ∨ ∃ k, i = forth k ∨ i = back k := by
  by_cases h₀ : i.val = 0
  · exact .inl (Fin.ext h₀)
  · by_cases hn : i.val ≤ n
    · exact .inr ⟨⟨i.val - 1, by omega⟩, .inl (Fin.ext (by simp only [forth]; omega))⟩
    · exact .inr ⟨⟨i.val - n - 1, by omega⟩, .inr (Fin.ext (by simp only [back]; omega))⟩

/-- A point on an axis turns the state by `σ` or not at all. -/
theorem Rotation.resolved_axis {n start : Nat} (h : start + 2 < n) {σ : ℝ} (hσ : 0 ≤ σ)
    (hpi : σ < Real.pi) (hsin : 1e-4 ≤ Real.sin (σ / 2)) (i : Fin (2 * n + 1)) :
    Resolved (PoseState.block ((SigmaPoints.offsetsOf (Mat.scalar n σ)).row i) start h) := by
  have haxis : ∀ x y z : ℝ, x = 0 ∧ y = 0 ∧ z = 0 ∨ x * x + y * y + z * z = σ * σ →
      Resolved ⟨x, y, z⟩ := by
    rintro x y z (⟨rfl, rfl, rfl⟩ | h)
    · exact .inl rfl
    · have hnorm : (⟨x, y, z⟩ : Vec3 ℝ).norm = σ := by
        change Real.sqrt (x * x + y * y + z * z) = σ
        rw [h, Real.sqrt_mul_self hσ]
      exact .inr (by rw [hnorm]; exact ⟨hpi, hsin⟩)
  have hsplit : ∀ k : Fin n, start = k.val ∨ start + 1 = k.val ∨ start + 2 = k.val ∨
      start ≠ k.val ∧ start + 1 ≠ k.val ∧ start + 2 ≠ k.val := by
    omega
  refine haxis ((SigmaPoints.offsetsOf (Mat.scalar n σ)).get i ⟨start, by omega⟩)
    ((SigmaPoints.offsetsOf (Mat.scalar n σ)).get i ⟨start + 1, by omega⟩)
    ((SigmaPoints.offsetsOf (Mat.scalar n σ)).get i ⟨start + 2, h⟩) ?_
  obtain rfl | ⟨k, rfl | rfl⟩ := SigmaPoints.eq_zero_or_pair i
  · exact .inl (by simp)
  · obtain h' | h' | h' | ⟨h₀, h₁, h₂⟩ := hsplit k
    · exact .inr (by simp [Fin.ext_iff, ← h'])
    · exact .inr (by simp [Fin.ext_iff, ← h'])
    · exact .inr (by simp [Fin.ext_iff, ← h'])
    · exact .inl (by simp [Fin.ext_iff, h₀, h₁, h₂])
  · obtain h' | h' | h' | ⟨h₀, h₁, h₂⟩ := hsplit k
    · exact .inr (by simp [Fin.ext_iff, ← h'])
    · exact .inr (by simp [Fin.ext_iff, ← h'])
    · exact .inr (by simp [Fin.ext_iff, ← h'])
    · exact .inl (by simp [Fin.ext_iff, h₀, h₁, h₂])

/-- A new state is known so well, seen from the standard points, that the logarithm resolves their
rotations: the closed form holds for a pose read with unit noise. -/
theorem Correction.kalman_form_new_pose :
    (begin (PoseState.initial : PoseState ℝ)
      (Reading.pose ⟨⟨1, 2, 3⟩, ⟨0.8, 0.6, 0, 0⟩⟩ (Mat.scalar 6 1)).model
      UnscentedParams.standard).commit.result = .ok () := by
  obtain ⟨w, hw⟩ := UnscentedParams.exists_weights_standard (n := PoseState.dim) (by decide)
  have hspread : w.spread = 1.2e-5 := by
    rw [(UnscentedParams.weights_spec hw).spread_eq]
    norm_num [UnscentedParams.lambda, UnscentedParams.standard, PoseState.dim]
  have hvar : (0 : ℝ) < PoseState.initialVariance := by norm_num [PoseState.initialVariance]
  have hpsd : (Mat.scalar PoseState.dim PoseState.initialVariance).toMatrix.PosSemidef :=
    (Mat.posDef_scalar hvar).posSemidef
  have hrpd : (Mat.scalar 6 (1 : ℝ)).toMatrix.PosDef := Mat.posDef_scalar one_pos
  have hg := SigmaPoints.generate_isotropic hvar (s := PoseState.initial) rfl hw
  have hlow : 0.01 ≤ Real.sqrt (PoseState.initialVariance * w.spread) :=
    Real.le_sqrt_of_sq_le (by rw [hspread]; norm_num [PoseState.initialVariance])
  have hhigh : Real.sqrt (PoseState.initialVariance * w.spread) ≤ 0.02 :=
    Real.sqrt_le_left (by norm_num) |>.2 (by rw [hspread]; norm_num [PoseState.initialVariance])
  have hsin : 1e-4 ≤ Real.sin (Real.sqrt (PoseState.initialVariance * w.spread) / 2) := by
    have hsub := Real.sin_gt_sub_cube
      (x := Real.sqrt (PoseState.initialVariance * w.spread) / 2) (by linarith)
    have hcube := pow_le_of_le_one
      (a := Real.sqrt (PoseState.initialVariance * w.spread) / 2) (by linarith) (by linarith)
      (three_ne_zero (α := ℕ))
    linarith
  obtain ⟨_, _, h⟩ := kalman_form PoseState.initial
    (by norm_num [Quaternion.IsUnit, Quaternion.normSq, PoseState.initial, Quaternion.identity]) rfl
    hpsd (Reading.pose ⟨⟨1, 2, 3⟩, ⟨0.8, 0.6, 0, 0⟩⟩ (Mat.scalar 6 1)) hrpd
    UnscentedParams.standard hw
    (fun _ sigma hsigma i => by
      cases Except.ok.inj (hg.symm.trans hsigma)
      exact Rotation.resolved_axis _ (by linarith) (by linarith [Real.pi_gt_three]) hsin i)
  rw [h]

end PoseFilter
