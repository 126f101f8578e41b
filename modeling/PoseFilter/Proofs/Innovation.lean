import PoseFilter.Proofs.SigmaPoints
import PoseFilter.Unscented.Correction

/-!
# The exact unscented correction

The correction adds up `2n + 1` weighted outer products around a shifted mean, with a weight at the
centre that is usually hugely negative.  Over the real numbers the sums collapse: with `w` the weight
of an outer point, `dᵢ` the deviation of the prediction at point `i` and `d̄ = w ∑ dᵢ`,

* `S = R + w ∑ dᵢ dᵢᵀ + (β - α²) d̄ d̄ᵀ` (`Proposal.weightedOuter_centered`),
* `C = w ∑ oᵢ dᵢᵀ` (`Proposal.weightedOuter_cross`), and `K S = C` (`Proposal.gain_eq`),

so that everything is decided by a sum of squares.  When the last term of `S` does no harm (`β ≥ α²`,
or `d̄ = 0`), the proposal exists (`Proposal.ofDeviations_eq`), and the corrected covariance
`P - C S⁻¹ Cᵀ` is positive (semi-)definite with the prior (`Moments.posterior_posSemidef`,
`Moments.posterior_posDef`).
-/

open Matrix

namespace PoseFilter

/-! ### Sums of outer products -/

/-- The weighted sum of the outer products of two families of vectors. -/
noncomputable def moment {ι : Type} [Fintype ι] {a b : Nat} (w : ℝ) (u : ι → Fin a → ℝ)
    (v : ι → Fin b → ℝ) : Matrix (Fin a) (Fin b) ℝ :=
  w • ∑ i, vecMulVec (u i) (v i)

section Moment

variable {ι : Type} [Fintype ι] {a b : Nat} {w : ℝ}

theorem moment_apply (u : ι → Fin a → ℝ) (v : ι → Fin b → ℝ) (i : Fin a) (j : Fin b) :
    moment w u v i j = w * ∑ k, u k i * v k j := by
  simp [moment, Matrix.sum_apply, vecMulVec_apply]

theorem dotProduct_moment_mulVec (u : ι → Fin a → ℝ) (v : ι → Fin b → ℝ) (x : Fin a → ℝ)
    (y : Fin b → ℝ) : x ⬝ᵥ (moment w u v *ᵥ y) = w * ∑ i, (x ⬝ᵥ u i) * (v i ⬝ᵥ y) := by
  simp only [moment, smul_mulVec, dotProduct_smul, smul_eq_mul, Matrix.sum_mulVec,
    dotProduct_sum, vecMulVec_mulVec, op_smul_eq_smul]
  exact congrArg _ (Finset.sum_congr rfl fun i _ => mul_comm _ _)

theorem moment_form (u : ι → Fin a → ℝ) (x : Fin a → ℝ) :
    x ⬝ᵥ (moment w u u *ᵥ x) = w * ∑ i, (x ⬝ᵥ u i) ^ 2 := by
  rw [dotProduct_moment_mulVec]
  exact congrArg _ (Finset.sum_congr rfl fun i _ => by rw [dotProduct_comm (u i), sq])

theorem transpose_moment (u : ι → Fin a → ℝ) (v : ι → Fin b → ℝ) :
    (moment w u v)ᵀ = moment w v u := by
  simp [moment, Matrix.transpose_sum, transpose_vecMulVec]

theorem posSemidef_moment (hw : 0 ≤ w) (u : ι → Fin a → ℝ) : (moment w u u).PosSemidef := by
  refine Matrix.PosSemidef.smul (Matrix.posSemidef_sum _ fun i _ => ?_) hw
  simpa using Matrix.posSemidef_vecMulVec_self_star (u i)

end Moment

/-! ### The corrected covariance -/

/-- Second moments of a state and its measurement over a family of points: the points `o` with the
covariance `P`, their predictions `d`, and a positive definite remainder `T` of the innovation
covariance. -/
structure Moments {ι : Type} [Fintype ι] {n m : Nat} (w : ℝ) (o : ι → Fin n → ℝ)
    (d : ι → Fin m → ℝ) (P : Matrix (Fin n) (Fin n) ℝ) (T S : Matrix (Fin m) (Fin m) ℝ)
    (C : Matrix (Fin n) (Fin m) ℝ) : Prop where
  weight_nonneg : 0 ≤ w
  prior : P = moment w o o
  cross : C = moment w o d
  innovation : S = T + moment w d d
  remainder : T.PosDef

namespace Moments

variable {ι : Type} [Fintype ι] {n m : Nat} {w : ℝ} {o : ι → Fin n → ℝ} {d : ι → Fin m → ℝ}
  {P : Matrix (Fin n) (Fin n) ℝ} {T S : Matrix (Fin m) (Fin m) ℝ} {C : Matrix (Fin n) (Fin m) ℝ}

theorem posDef_innovation (h : Moments w o d P T S C) : S.PosDef := by
  rw [h.innovation]
  exact h.remainder.add_posSemidef (posSemidef_moment h.weight_nonneg d)

/-- **The corrected covariance is a sum of squares.**  With `y = S⁻¹ Cᵀ x`, its form at `x` adds the
squares of `x · oᵢ - y · dᵢ` and the form of the remainder at `y`. -/
theorem posterior_form (h : Moments w o d P T S C) (x : Fin n → ℝ) :
    x ⬝ᵥ ((P - C * S⁻¹ * Cᵀ) *ᵥ x) =
      w * ∑ i, (x ⬝ᵥ o i - (S⁻¹ *ᵥ (Cᵀ *ᵥ x)) ⬝ᵥ d i) ^ 2 +
        (S⁻¹ *ᵥ (Cᵀ *ᵥ x)) ⬝ᵥ (T *ᵥ (S⁻¹ *ᵥ (Cᵀ *ᵥ x))) := by
  have hunit := (Matrix.isUnit_iff_isUnit_det S).1 h.posDef_innovation.isUnit
  set y := S⁻¹ *ᵥ (Cᵀ *ᵥ x) with hy
  have hSy : S *ᵥ y = Cᵀ *ᵥ x := by
    rw [hy, mulVec_mulVec, Matrix.mul_nonsing_inv S hunit, one_mulVec]
  have hCy : (C * S⁻¹ * Cᵀ) *ᵥ x = C *ᵥ y := by
    simp only [hy, mulVec_mulVec, Matrix.mul_assoc]
  have hcross : y ⬝ᵥ (S *ᵥ y) = x ⬝ᵥ (C *ᵥ y) := by
    rw [hSy, mulVec_transpose, dotProduct_comm]
    exact (dotProduct_mulVec x C y).symm
  have hP : x ⬝ᵥ (P *ᵥ x) = w * ∑ i, (x ⬝ᵥ o i) ^ 2 := by
    rw [h.prior, moment_form]
  have hC : x ⬝ᵥ (C *ᵥ y) = w * ∑ i, (x ⬝ᵥ o i) * (y ⬝ᵥ d i) := by
    rw [h.cross, dotProduct_moment_mulVec]
    exact congrArg _ (Finset.sum_congr rfl fun i _ => by rw [dotProduct_comm (d i)])
  have hS : y ⬝ᵥ (S *ᵥ y) = y ⬝ᵥ (T *ᵥ y) + w * ∑ i, (y ⬝ᵥ d i) ^ 2 := by
    rw [h.innovation, add_mulVec, dotProduct_add, moment_form]
  have hsq : ∑ i, (x ⬝ᵥ o i - y ⬝ᵥ d i) ^ 2 =
      ∑ i, (x ⬝ᵥ o i) ^ 2 - 2 * ∑ i, (x ⬝ᵥ o i) * (y ⬝ᵥ d i) + ∑ i, (y ⬝ᵥ d i) ^ 2 := by
    rw [Finset.mul_sum, ← Finset.sum_sub_distrib, ← Finset.sum_add_distrib]
    exact Finset.sum_congr rfl fun i _ => by ring
  -- `S y = Cᵀ x`, so the mixed terms are twice what the form of `S` takes back
  rw [sub_mulVec, dotProduct_sub, hCy, hsq]
  linear_combination hP - 2 * hC + hS - hcross

theorem isSymm_posterior (h : Moments w o d P T S C) : (P - C * S⁻¹ * Cᵀ).IsSymm := by
  have hS : S⁻¹ᵀ = S⁻¹ := by
    rw [Matrix.transpose_nonsing_inv,
      (isSymm_of_posSemidef h.posDef_innovation.posSemidef).eq]
  rw [Matrix.IsSymm, Matrix.transpose_sub, Matrix.transpose_mul, Matrix.transpose_mul,
    Matrix.transpose_transpose, hS, ← Matrix.mul_assoc, h.prior, transpose_moment]

theorem posterior_posSemidef (h : Moments w o d P T S C) :
    (P - C * S⁻¹ * Cᵀ).PosSemidef := by
  refine .of_dotProduct_mulVec_nonneg (Matrix.isHermitian_iff_isSymm.2 h.isSymm_posterior)
    fun x => ?_
  rw [star_trivial, h.posterior_form]
  refine add_nonneg (mul_nonneg h.weight_nonneg (Finset.sum_nonneg fun i _ => sq_nonneg _)) ?_
  simpa using h.remainder.posSemidef.dotProduct_mulVec_nonneg (S⁻¹ *ᵥ (Cᵀ *ᵥ x))

theorem posterior_posDef (h : Moments w o d P T S C) (hP : P.PosDef) :
    (P - C * S⁻¹ * Cᵀ).PosDef := by
  refine .of_dotProduct_mulVec_pos (Matrix.isHermitian_iff_isSymm.2 h.isSymm_posterior)
    fun x hx => ?_
  rw [star_trivial, h.posterior_form]
  have hsum := mul_nonneg h.weight_nonneg (Finset.sum_nonneg fun (i : ι) (_ : i ∈ Finset.univ) =>
    sq_nonneg (x ⬝ᵥ o i - (S⁻¹ *ᵥ (Cᵀ *ᵥ x)) ⬝ᵥ d i))
  by_cases hy : S⁻¹ *ᵥ (Cᵀ *ᵥ x) = 0
  · -- nothing is learned in this direction: the form is that of the prior
    have hform : w * ∑ i, (x ⬝ᵥ o i) ^ 2 = x ⬝ᵥ (P *ᵥ x) := by
      rw [h.prior, moment_form]
    have hpos := hP.dotProduct_mulVec_pos hx
    simp only [hy, zero_dotProduct, sub_zero, hform, add_zero]
    simpa using hpos
  · have hpos := h.remainder.dotProduct_mulVec_pos hy
    rw [star_trivial] at hpos
    linarith

theorem posSemidef_reduction (h : Moments w o d P T S C) : (C * S⁻¹ * Cᵀ).PosSemidef := by
  rw [← Matrix.conjTranspose_eq_transpose_of_trivial]
  exact h.posDef_innovation.inv.posSemidef.mul_mul_conjTranspose_same C

end Moments

/-! ### The proposal -/

namespace Proposal

variable {n m : Nat}

/-- The proposal with innovation covariance `S`, cross covariance `C` and innovation `z`: the gain is
`C S⁻¹`. -/
noncomputable def ofMoments (S : Matrix (Fin m) (Fin m) ℝ) (C : Matrix (Fin n) (Fin m) ℝ)
    (z : Fin m → ℝ) : Proposal ℝ n m where
  innovation := Column.ofFn z
  innovationCovariance := Mat.ofMatrix S
  gain := Mat.ofMatrix (C * S⁻¹)
  change := Column.ofFn ((C * S⁻¹) *ᵥ z)
  mahalanobisSquared := z ⬝ᵥ (S⁻¹ *ᵥ z)

section Collapse

variable {p : UnscentedParams ℝ} {w : SigmaWeights ℝ n}

/-- The mean deviation `d̄` of the outer points. -/
noncomputable def meanDeviation (w : SigmaWeights ℝ n) (d : Mat ℝ (2 * n + 1) m) : Fin m → ℝ :=
  fun j => ∑ i : Fin (2 * n), d.get i.succ j * w.mean.get i.succ

theorem meanDeviation_eq (hw : w.Balanced p) (d : Mat ℝ (2 * n + 1) m) (j : Fin m) :
    meanDeviation w d j = 1 / (2 * w.spread) * ∑ i : Fin (2 * n), d.get i.succ j := by
  simp only [meanDeviation, hw.mean_succ, ← Finset.sum_mul]
  exact mul_comm _ _

/-- The centre does not deviate, so its weight does not shift the mean. -/
theorem shift_eq (w : SigmaWeights ℝ n) {d : Mat ℝ (2 * n + 1) m} (hd : ∀ j, d.get 0 j = 0) :
    (d.transpose.mulColumn w.mean).get = meanDeviation w d := by
  funext j
  simp only [Mat.get_mulColumn, Mat.get_transpose, Exact.sum_eq, Fin.sum_univ_succ, hd, zero_mul,
    zero_add, meanDeviation]

/-- **The weights collapse.**  The covariance of the deviations, taken around their shifted mean
with the weights of the points, is their plain second moment but for a multiple of `d̄ d̄ᵀ`. -/
theorem weightedOuter_centered (hw : w.Balanced p) {d : Mat ℝ (2 * n + 1) m}
    (hd : ∀ j, d.get 0 j = 0) {c : Mat ℝ (2 * n + 1) m}
    (hc : ∀ i j, c.get i j = d.get i j - meanDeviation w d j) :
    (weightedOuter w.covariance c c).toMatrix =
      moment (1 / (2 * w.spread)) (fun i : Fin (2 * n) => (d.row i.succ).get)
        (fun i => (d.row i.succ).get) +
      (p.beta - p.alpha ^ 2) • vecMulVec (meanDeviation w d) (meanDeviation w d) := by
  ext a b
  have ha := meanDeviation_eq hw d a
  have hb := meanDeviation_eq hw d b
  have hexpand : ∀ i : Fin (2 * n), 1 / (2 * w.spread) *
      (d.get i.succ a - meanDeviation w d a) * (d.get i.succ b - meanDeviation w d b) =
        1 / (2 * w.spread) * (d.get i.succ a * d.get i.succ b) -
          meanDeviation w d b * (1 / (2 * w.spread) * d.get i.succ a) -
          meanDeviation w d a * (1 / (2 * w.spread) * d.get i.succ b) +
          1 / (2 * w.spread) * (meanDeviation w d a * meanDeviation w d b) := fun i => by ring
  -- the weights for means sum to one, which leaves `β - α²` of the centre
  simp only [Mat.toMatrix_apply, weightedOuter, Mat.get_ofFn, Exact.sum_eq, Fin.sum_univ_succ, hc,
    hd, hw.covariance_succ, hw.covariance_zero, hw.mean_zero, Matrix.add_apply, Matrix.smul_apply,
    moment_apply, Mat.get_row, vecMulVec_apply, smul_eq_mul, hexpand, Finset.sum_add_distrib,
    Finset.sum_sub_distrib, ← Finset.mul_sum, ← ha, ← hb, Finset.sum_const, Finset.card_univ,
    Fintype.card_fin, nsmul_eq_mul, Nat.cast_mul, Nat.cast_ofNat]
  ring

/-- The shift of the mean does not enter the cross covariance, because the offsets cancel. -/
theorem weightedOuter_cross (hw : w.Balanced p) {o : Mat ℝ (2 * n + 1) n}
    (ho : ∀ k, o.get 0 k = 0) (hsum : ∀ k, ∑ i : Fin (2 * n), o.get i.succ k = 0)
    {d c : Mat ℝ (2 * n + 1) m} (hc : ∀ i j, c.get i j = d.get i j - meanDeviation w d j) :
    (weightedOuter w.covariance o c).toMatrix =
      moment (1 / (2 * w.spread)) (fun i : Fin (2 * n) => (o.row i.succ).get)
        (fun i => (d.row i.succ).get) := by
  ext a b
  have hexpand : ∀ i : Fin (2 * n), 1 / (2 * w.spread) * o.get i.succ a *
      (d.get i.succ b - meanDeviation w d b) =
        1 / (2 * w.spread) * (o.get i.succ a * d.get i.succ b) -
          1 / (2 * w.spread) * meanDeviation w d b * o.get i.succ a := fun i => by ring
  simp only [Mat.toMatrix_apply, weightedOuter, Mat.get_ofFn, Exact.sum_eq, Fin.sum_univ_succ, hc,
    ho, mul_zero, zero_mul, zero_add, hw.covariance_succ, hexpand, Finset.sum_sub_distrib,
    ← Finset.mul_sum, hsum, sub_zero, moment_apply, Mat.get_row]

end Collapse

theorem gain_eq {s l : Mat ℝ m m} (hl : s.cholesky? = some l) (hs : s.toMatrix.IsSymm)
    (c : Mat ℝ n m) :
    (⟨Vector.ofFn fun i => l.solveFactored (c.row i)⟩ : Mat ℝ n m) =
      Mat.ofMatrix (c.toMatrix * s.toMatrix⁻¹) := by
  have hinv : s.toMatrix⁻¹ᵀ = s.toMatrix⁻¹ := by rw [Matrix.transpose_nonsing_inv, hs.eq]
  refine Mat.ext_get fun i j => ?_
  have hrow : (⟨Vector.ofFn fun i => l.solveFactored (c.row i)⟩ : Mat ℝ n m).get i j =
      (l.solveFactored (c.row i)).get j := by
    simp [Mat.get, Column.get]
  rw [hrow, Mat.get_solveFactored hl hs, ← Mat.toMatrix_apply (Mat.ofMatrix _),
    Mat.toMatrix_ofMatrix, ← vecMul_transpose, hinv]
  rfl

/-- **The proposal of the exact filter.**  It exists iff the innovation covariance is positive
definite, and is then the one of the collapsed moments. -/
theorem ofDeviations_eq {p : UnscentedParams ℝ} {w : SigmaWeights ℝ n} (hw : w.Balanced p)
    {r : Mat ℝ m m} (hr : r.toMatrix.IsSymm) {o : Mat ℝ (2 * n + 1) n} (ho : ∀ k, o.get 0 k = 0)
    (hsum : ∀ k, ∑ i : Fin (2 * n), o.get i.succ k = 0) {d : Mat ℝ (2 * n + 1) m}
    (hd : ∀ j, d.get 0 j = 0) (z : Column ℝ m) {S : Matrix (Fin m) (Fin m) ℝ}
    (hS : S = r.toMatrix + moment (1 / (2 * w.spread)) (fun i : Fin (2 * n) => (d.row i.succ).get)
        (fun i => (d.row i.succ).get) +
      (p.beta - p.alpha ^ 2) • vecMulVec (meanDeviation w d) (meanDeviation w d)) :
    (S.PosDef → ofDeviations r w o d z = .ok (ofMoments S
      (moment (1 / (2 * w.spread)) (fun i : Fin (2 * n) => (o.row i.succ).get)
        (fun i => (d.row i.succ).get)) (z.get - meanDeviation w d))) ∧
      (¬S.PosDef → ofDeviations r w o d z = .error .innovationCovarianceSingular) := by
  set c : Mat ℝ (2 * n + 1) m :=
    Mat.ofFn fun i j => d.get i j - (d.transpose.mulColumn w.mean).get j with hcdef
  have hc : ∀ i j, c.get i j = d.get i j - meanDeviation w d j := fun i j => by
    rw [hcdef, Mat.get_ofFn, shift_eq w hd]
  -- making the sum symmetric changes nothing: it is so already
  have hsymm : (r + weightedOuter w.covariance c c).toMatrix.IsSymm := by
    rw [Mat.toMatrix_add, weightedOuter_centered hw hd hc, Matrix.IsSymm, Matrix.transpose_add,
      Matrix.transpose_add, Matrix.transpose_smul, transpose_moment, transpose_vecMulVec, hr.eq]
  have hs : ((r + weightedOuter w.covariance c c).symmetrized).toMatrix = S := by
    rw [Mat.symmetrized_of_isSymm hsymm, Mat.toMatrix_add, weightedOuter_centered hw hd hc, hS,
      add_assoc]
  have hsS : ((r + weightedOuter w.covariance c c).symmetrized).toMatrix.IsSymm := by
    rwa [Mat.symmetrized_of_isSymm hsymm]
  unfold ofDeviations
  simp only [Mat.isFinite_eq, Bool.not_true, Bool.or_self, Bool.false_eq_true, if_false, ← hcdef]
  constructor
  · intro hpd
    obtain ⟨l, hl⟩ := Mat.cholesky?_of_posDef (hs ▸ hpd)
    have hz : (z.sub (d.transpose.mulColumn w.mean)).get = z.get - meanDeviation w d := by
      rw [Column.get_sub_eq, shift_eq w hd]
    have hz' : z.sub (d.transpose.mulColumn w.mean) = Column.ofFn (z.get - meanDeviation w d) :=
      Column.ext_get fun j => by rw [hz, Column.get_ofFn]
    rw [hl]
    simp only [gain_eq hl hsS, hs, weightedOuter_cross hw ho hsum hc, Column.dot_eq,
      Mat.get_solveFactored hl hsS, hz, ofMoments]
    congr 2
    · exact Mat.toMatrix_injective (by rw [hs, Mat.toMatrix_ofMatrix])
    · refine Column.ext_get fun j => ?_
      rw [Mat.get_mulColumn_eq, Mat.toMatrix_ofMatrix, hz, Column.get_ofFn]
  · intro hnpd
    have hnone : (r + weightedOuter w.covariance c c).symmetrized.cholesky? = none := by
      by_contra hne
      exact hnpd (hs ▸ (Mat.cholesky?_isSome_iff hsS).1 (Option.isSome_iff_ne_none.2 hne))
    rw [hnone]

theorem checkNoise_of_posDef {r : Mat ℝ m m} (h : r.toMatrix.PosDef) :
    checkNoise m r.toGrid = .ok r := by
  have hsymm : r.toMatrix.IsSymm := isSymm_of_posSemidef h.posSemidef
  have htol : (0 : ℝ) ≤ symmetryTolerance := by norm_num [symmetryTolerance]
  simp only [checkNoise, Grid.asMat?_toGrid, Mat.isFinite_eq,
    Mat.isSymmetric_of_isSymm hsymm htol, (Mat.cholesky?_isSome_iff hsymm).2 h, Bool.and_self,
    if_true]

theorem checkNoise_of_not_posDef {r : Mat ℝ m m} (hsymm : r.toMatrix.IsSymm)
    (h : ¬r.toMatrix.PosDef) :
    checkNoise m r.toGrid = .error .measurementCovarianceNotPositiveDefinite := by
  have hnone : r.cholesky?.isSome = false := by
    rw [Bool.eq_false_iff]
    exact mt (Mat.cholesky?_isSome_iff hsymm).1 h
  simp only [checkNoise, Grid.asMat?_toGrid, hnone, Bool.and_false, Bool.false_eq_true, if_false]

end Proposal

/-! ### Deviations of the predictions -/

open FilterState

variable {S V : Type} [FilterState S ℝ]

namespace MeasurementModel

/-- Differences have the length of the measurement, and a value does not differ from itself. -/
structure Consistent (model : MeasurementModel S V ℝ) : Prop where
  size_difference : ∀ a b, (model.difference a b).size = model.dim
  difference_self : ∀ z, model.difference z z = Array.replicate model.dim 0

/-- The entries of a difference of values. -/
def entries {m : Nat} (a : Array ℝ) : Fin m → ℝ := fun j => a.getD j 0

/-- How far the prediction moves when the state is moved along a tangent vector. -/
def deviation (model : MeasurementModel S V ℝ) (state : S) (o : Column ℝ (FilterState.dim S)) :
    Fin model.dim → ℝ :=
  entries (model.difference (model.predict (retract state o)) (model.predict state))

/-- The deviations at the sigma points; there is none at the centre. -/
def deviations (model : MeasurementModel S V ℝ) (state : S)
    (offsets : Mat ℝ (2 * FilterState.dim S + 1) (FilterState.dim S)) :
    Mat ℝ (2 * FilterState.dim S + 1) model.dim :=
  Mat.ofFn fun i j => if i = 0 then 0 else model.deviation state (offsets.row i) j

/-- Measured minus predicted. -/
def innovation (model : MeasurementModel S V ℝ) (state : S) : Fin model.dim → ℝ :=
  entries (model.residual (model.predict state))

theorem get_deviations_zero (model : MeasurementModel S V ℝ) (state : S)
    (offsets : Mat ℝ (2 * FilterState.dim S + 1) (FilterState.dim S)) (j : Fin model.dim) :
    (model.deviations state offsets).get 0 j = 0 := by
  rw [deviations, Mat.get_ofFn, if_pos rfl]

theorem row_deviations_succ (model : MeasurementModel S V ℝ) (state : S)
    (offsets : Mat ℝ (2 * FilterState.dim S + 1) (FilterState.dim S))
    (i : Fin (2 * FilterState.dim S)) :
    ((model.deviations state offsets).row i.succ).get =
      model.deviation state (offsets.row i.succ) := by
  funext j
  rw [Mat.get_row, deviations, Mat.get_ofFn, if_neg (Fin.succ_ne_zero i)]

end MeasurementModel

open MeasurementModel hiding dim

theorem Proposal.checkLength_eq_entries {m : Nat} {a : Array ℝ} (h : a.size = m) :
    Proposal.checkLength m a = .ok (Column.ofFn (entries a)) := by
  rw [checkLength_of_size h]
  refine congrArg Except.ok (Column.ext_get fun j => ?_)
  simp [Column.get, entries, Column.ofFn, h]

variable [Diagonalization]

theorem propose_of_generate {state : S} {model : MeasurementModel S V ℝ} (hm : model.Consistent)
    {params : UnscentedParams ℝ} {r : Mat ℝ model.dim model.dim}
    (hr : Proposal.checkNoise model.dim (model.covariance state) = .ok r)
    {root : Mat ℝ (dim S) (dim S)} {w : SigmaWeights ℝ (dim S)}
    (hg : SigmaPoints.generate state params = .ok (SigmaPoints.along state root w)) :
    propose state model params = Proposal.ofDeviations r w (SigmaPoints.offsetsOf root)
      (model.deviations state (SigmaPoints.offsetsOf root))
      (Column.ofFn (model.innovation state)) := by
  have hcenter : ((SigmaPoints.along state root w).points.map model.predict)[0] =
      model.predict state := by
    simp [SigmaPoints.along]
  have hlen : ∀ z, Proposal.checkLength model.dim (model.difference z (model.predict state)) =
      pure (Column.ofFn (entries (model.difference z (model.predict state)))) :=
    fun z => Proposal.checkLength_eq_entries (hm.size_difference _ _)
  have hdev : (⟨((SigmaPoints.along state root w).points.map model.predict).map fun z =>
      Column.ofFn (entries (model.difference z (model.predict state)))⟩ :
        Mat ℝ (2 * dim S + 1) model.dim) =
      model.deviations state (SigmaPoints.offsetsOf root) := by
    refine Mat.ext_get fun i j => ?_
    rw [deviations, Mat.get_ofFn]
    -- at the centre a value is compared with itself
    by_cases hi : i = 0
    · simp [Mat.get, SigmaPoints.along, hi, hm.difference_self, Column.ofFn, entries]
    · simp [Mat.get, SigmaPoints.along, hi, Column.ofFn, deviation]
  unfold propose
  rw [hr, hg]
  simp only [bind, Except.bind, hcenter, hlen]
  rw [Vector.mapM_pure]
  simp only [pure, Except.pure, hdev, MeasurementModel.residual,
    Proposal.checkLength_eq_entries (hm.size_difference _ _)]
  rfl

end PoseFilter
