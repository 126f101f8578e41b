import PoseFilter.Proofs.Semidefinite
import PoseFilter.PoseState
import PoseFilter.Unscented.SigmaPoints

/-!
# Moments of the exact sigma points

The `2n + 1` points come as a centre and `n` opposite pairs, and their weights are made so that the
points have the moments of the state they stand for.

* `UnscentedParams.weights_spec` : the weights in terms of the spread; those for means sum to one.
* `SigmaPoints.generate_of_posSemidef` : a state with a positive semi-definite covariance has sigma
  points, whatever the parameters that were accepted.
* `SigmaPoints.sum_offsets`, `SigmaPoints.sum_vecMulVec_offsets` : the offsets cancel, and their
  outer products sum to twice the square of the root.
* `SigmaPoints.generate_moments` : the points have the moments of the state.
-/

open Matrix

namespace PoseFilter

/-! ### Weights -/

/-- What accepted weights are: one share for every outer point, and what is left for the centre. -/
structure SigmaWeights.Balanced {n : Nat} (w : SigmaWeights ℝ n) (p : UnscentedParams ℝ) :
    Prop where
  spread_eq : w.spread = n + p.lambda n
  spread_pos : 0 < w.spread
  mean_succ : ∀ i : Fin (2 * n), w.mean.get i.succ = 1 / (2 * w.spread)
  covariance_succ : ∀ i : Fin (2 * n), w.covariance.get i.succ = 1 / (2 * w.spread)
  mean_zero : w.mean.get 0 = 1 - 2 * n * (1 / (2 * w.spread))
  covariance_zero : w.covariance.get 0 = w.mean.get 0 + (1 - p.alpha ^ 2 + p.beta)

theorem UnscentedParams.weights_spec {p : UnscentedParams ℝ} {n : Nat} {w : SigmaWeights ℝ n}
    (h : p.weights n = .ok w) : w.Balanced p := by
  unfold weights at h
  simp only [Exact.isFinite_eq, Bool.not_true, Bool.or_self, Bool.false_eq_true, if_false] at h
  split_ifs at h with ha hs
  cases h
  have hpos : (0 : ℝ) < n + p.lambda n := hs
  constructor
  · rfl
  · exact hpos
  · intro i
    simp only [Column.get_ofFn, Fin.val_succ, Nat.succ_ne_zero, if_false]
    field_simp
    norm_num
  · intro i
    simp only [Column.get_ofFn, Fin.val_succ, Nat.succ_ne_zero, if_false]
    field_simp
    norm_num
  · simp only [Column.get_ofFn, Fin.val_zero, if_true]
    field_simp
    ring
  · simp only [Column.get_ofFn, Fin.val_zero, if_true]
    ring

theorem UnscentedParams.exists_weights {p : UnscentedParams ℝ} {n : Nat} (ha : 0 < p.alpha)
    (hs : 0 < (n : ℝ) + p.lambda n) : ∃ w, p.weights n = .ok w := by
  unfold weights
  simp only [Exact.isFinite_eq, Bool.not_true, Bool.or_self, Bool.false_eq_true, if_false, ha,
    and_self, not_true, hs]
  exact ⟨_, rfl⟩

theorem UnscentedParams.exists_weights_standard {n : Nat} (hn : 0 < n) :
    ∃ w, (standard : UnscentedParams ℝ).weights n = .ok w := by
  have hn' : (0 : ℝ) < n := Nat.cast_pos.2 hn
  refine exists_weights (by norm_num [standard]) ?_
  simp only [standard, lambda]
  norm_num
  exact hn

namespace SigmaPoints

variable {n : Nat}

/-! ### The points in pairs -/

/-- The point moved along an axis of the root. -/
def forth (k : Fin n) : Fin (2 * n + 1) := ⟨k.val + 1, by omega⟩

/-- The point moved along the opposite of an axis of the root. -/
def back (k : Fin n) : Fin (2 * n + 1) := ⟨k.val + n + 1, by omega⟩

theorem sum_succ_eq {M : Type} [AddCommMonoid M] (g : Fin (2 * n + 1) → M) :
    ∑ i : Fin (2 * n), g i.succ = ∑ k, (g (forth k) + g (back k)) := by
  -- the points forwards are the first half, those backwards the second
  have hcast : ∑ i : Fin (2 * n), g i.succ =
      ∑ i : Fin (n + n), g (i.cast (two_mul n).symm).succ :=
    (Equiv.sum_comp (finCongr (two_mul n).symm) fun i => g i.succ).symm
  rw [hcast, Fin.sum_univ_add, ← Finset.sum_add_distrib]
  refine Finset.sum_congr rfl fun k _ => ?_
  congr 2
  exact Fin.ext (by simp [back, add_comm])

variable (root : Mat ℝ n n)

@[simp]
theorem offsetsOf_zero (a : Fin n) : (offsetsOf root).get 0 a = 0 := by
  simp [offsetsOf]

@[simp]
theorem offsetsOf_forth (k a : Fin n) : (offsetsOf root).get (forth k) a = root.get a k := by
  have h : k.val + 1 ≤ n := k.isLt
  simp [offsetsOf, forth, h]

@[simp]
theorem offsetsOf_back (k a : Fin n) : (offsetsOf root).get (back k) a = -root.get a k := by
  have h : ¬k.val + n + 1 ≤ n := by omega
  have hk : k.val + n + 1 - n - 1 = k.val := by omega
  simp [offsetsOf, back, h, hk]

theorem row_back (k : Fin n) : (offsetsOf root).row (back k) = ((offsetsOf root).row (forth k)).neg :=
  Column.ext_get fun a => by simp

theorem sum_offsets (a : Fin n) : ∑ i : Fin (2 * n), (offsetsOf root).get i.succ a = 0 := by
  rw [sum_succ_eq fun i => (offsetsOf root).get i a]
  simp

theorem sum_vecMulVec_offsets :
    ∑ i : Fin (2 * n), vecMulVec ((offsetsOf root).row i.succ).get ((offsetsOf root).row i.succ).get =
      (2 : ℝ) • (root.toMatrix * root.toMatrixᵀ) := by
  rw [sum_succ_eq fun i => vecMulVec ((offsetsOf root).row i).get ((offsetsOf root).row i).get]
  ext a b
  simp only [Matrix.sum_apply, Matrix.add_apply, vecMulVec_apply, Mat.get_row, offsetsOf_forth,
    offsetsOf_back, Matrix.smul_apply, Matrix.mul_apply, Matrix.transpose_apply,
    Mat.toMatrix_apply, smul_eq_mul, Finset.mul_sum]
  exact Finset.sum_congr rfl fun k _ => by ring

theorem weighted_vecMulVec_offsets {root p : Mat ℝ n n} {s : ℝ} (hs : 0 < s)
    (h : root.toMatrix * root.toMatrixᵀ = s • p.toMatrix) :
    (1 / (2 * s)) • ∑ i : Fin (2 * n),
      vecMulVec ((offsetsOf root).row i.succ).get ((offsetsOf root).row i.succ).get = p.toMatrix := by
  have hone : 1 / (2 * s) * 2 * s = 1 := by
    field_simp
  rw [sum_vecMulVec_offsets, h, smul_smul, smul_smul, hone, one_smul]

/-! ### Generation -/

section Generation

variable {S : Type} [FilterState S ℝ] [Diagonalization]

open FilterState

/-- The sigma points of a state, along the columns of a given root. -/
noncomputable def along (state : S) (root : Mat ℝ (dim S) (dim S))
    (weights : SigmaWeights ℝ (dim S)) : SigmaPoints S ℝ (dim S) where
  points := Vector.ofFn fun i =>
    if i.val = 0 then state else retract state ((offsetsOf root).row i)
  offsets := offsetsOf root
  weights := weights

theorem generate_of_root {state : S} {p : Mat ℝ (dim S) (dim S)} (hp : covariance state = p.toGrid)
    {params : UnscentedParams ℝ} {w : SigmaWeights ℝ (dim S)}
    (hw : params.weights (dim S) = .ok w) {root : Mat ℝ (dim S) (dim S)}
    (hr : (p.scale w.spread).squareRoot? = some root) :
    generate state params = .ok (along state root w) := by
  simp only [generate, hw, covariance?_of_toGrid hp, Mat.isFinite_eq, Bool.not_true, bind,
    Except.bind, pure, Except.pure, Bool.false_eq_true, if_false, hr]
  rfl

/-- **Every positive semi-definite covariance has sigma points**, along a root of the covariance
times the spread. -/
theorem generate_of_posSemidef {state : S} {p : Mat ℝ (dim S) (dim S)}
    (hp : covariance state = p.toGrid) (hpsd : p.toMatrix.PosSemidef)
    {params : UnscentedParams ℝ} {w : SigmaWeights ℝ (dim S)}
    (hw : params.weights (dim S) = .ok w) :
    ∃ root, generate state params = .ok (along state root w) ∧
      root.toMatrix * root.toMatrixᵀ = w.spread • p.toMatrix := by
  have hpos := (UnscentedParams.weights_spec hw).spread_pos
  have hscaled : (p.scale w.spread).toMatrix.PosSemidef := by
    rw [Mat.toMatrix_scale]
    exact hpsd.smul hpos.le
  obtain ⟨root, hr, hmul⟩ := Mat.squareRoot?_of_posSemidef hscaled
  exact ⟨root, generate_of_root hp hw hr, by rw [hmul, Mat.toMatrix_scale]⟩

/-! ### Moments -/

omit [Diagonalization] in
theorem sum_covariance_along {state : S} {p root : Mat ℝ (dim S) (dim S)} {params : UnscentedParams ℝ}
    {w : SigmaWeights ℝ (dim S)} (hw : w.Balanced params)
    (h : root.toMatrix * root.toMatrixᵀ = w.spread • p.toMatrix) :
    ∑ i, w.covariance.get i • vecMulVec ((along state root w).offsets.row i).get
      ((along state root w).offsets.row i).get = p.toMatrix := by
  have hcenter : ((offsetsOf root).row 0).get = 0 := funext fun a => by simp
  simp only [along, Fin.sum_univ_succ, hcenter, zero_vecMulVec, smul_zero, zero_add,
    hw.covariance_succ]
  rw [← Finset.smul_sum, weighted_vecMulVec_offsets hw.spread_pos h]

omit [Diagonalization] in
theorem sum_mean_weights {n : Nat} {params : UnscentedParams ℝ} {w : SigmaWeights ℝ n}
    (hw : w.Balanced params) : ∑ i, w.mean.get i = 1 := by
  simp only [Fin.sum_univ_succ, hw.mean_zero, hw.mean_succ, Finset.sum_const, Finset.card_univ,
    Fintype.card_fin, nsmul_eq_mul, Nat.cast_mul, Nat.cast_ofNat]
  ring

/-- **The sigma points have the moments of the state.**  Every state of dimension `n` with a positive
semi-definite covariance `P` has its `2n + 1` points, whatever the parameters that were accepted.  The
weights for means sum to one.  The offset of the first point is zero, and the offset of point
`n + 1 + k` is the opposite of that of point `1 + k`, so the weighted offsets sum to zero; their outer
products, with the weights for covariances, sum to `P`.  The first point is the state, and every other
one is the state moved along its offset. -/
theorem generate_moments {state : S} {p : Mat ℝ (dim S) (dim S)} (hp : covariance state = p.toGrid)
    (hpsd : p.toMatrix.PosSemidef) {params : UnscentedParams ℝ} {w : SigmaWeights ℝ (dim S)}
    (hw : params.weights (dim S) = .ok w) :
    ∃ sigma, generate state params = .ok sigma ∧
      ∑ i, sigma.weights.mean.get i = 1 ∧
      (∀ a, sigma.offsets.get 0 a = 0) ∧
      (∀ k, sigma.offsets.row (back k) = (sigma.offsets.row (forth k)).neg) ∧
      (∀ a, ∑ i, sigma.weights.mean.get i * sigma.offsets.get i a = 0) ∧
      ∑ i, sigma.weights.covariance.get i •
        vecMulVec (sigma.offsets.row i).get (sigma.offsets.row i).get = p.toMatrix ∧
      sigma.points[0] = state ∧
      ∀ i : Fin (2 * dim S + 1), i ≠ 0 → sigma.points[i] = retract state (sigma.offsets.row i) := by
  have hbalanced := UnscentedParams.weights_spec hw
  obtain ⟨root, hg, hroot⟩ := generate_of_posSemidef hp hpsd hw
  refine ⟨_, hg, sum_mean_weights hbalanced, offsetsOf_zero root, row_back root, fun a => ?_,
    sum_covariance_along hbalanced hroot, ?_, fun i hi => ?_⟩
  · -- the outer points have one weight, and nothing comes from the centre
    simp only [along, Fin.sum_univ_succ, offsetsOf_zero, mul_zero, zero_add, hbalanced.mean_succ,
      ← Finset.mul_sum, sum_offsets]
  · simp [along]
  · simp [along, hi]

end Generation

/-- Two axes that are coupled by all of their variance: the covariance is singular, and its root comes
from the spectrum. -/
theorem generate_moments_singular :
    let p : Mat ℝ PoseState.dim PoseState.dim := Mat.coupled 10 1 1
    let state : PoseState ℝ := { PoseState.initial with covariance := p.toGrid }
    ¬p.toMatrix.PosDef ∧ p.toMatrix.PosSemidef ∧
      ∃ sigma, generate state UnscentedParams.standard = .ok sigma ∧
        ∑ i, sigma.weights.covariance.get i •
          vecMulVec (sigma.offsets.row i).get (sigma.offsets.row i).get = p.toMatrix := by
  intro p state
  obtain ⟨w, hw⟩ := UnscentedParams.exists_weights_standard (n := PoseState.dim) (by decide)
  have hpsd : p.toMatrix.PosSemidef := by
    have h := ((Mat.semidefiniteUpTo_coupled_iff (n := 10) zero_le_one zero_le_one).2
      (le_add_of_nonneg_right (le_refl (0 : ℝ)))).posSemidef
    rwa [Mat.symmetrized_of_isSymm (Mat.isSymm_coupled 10 1 1), zero_smul, add_zero] at h
  refine ⟨fun hpd => ?_, hpsd, ?_⟩
  · -- the difference of the two axes has no variance
    let v : Fin 12 → ℝ := Pi.single 0 1 - Pi.single 1 1
    have hne : v ≠ 0 := fun h => by simpa [v] using congrFun h 0
    have hkernel : p.toMatrix *ᵥ v = 0 :=
      (Mat.coupled_mulVec 10 1 1).trans (by rw [sub_self, zero_smul]; rfl)
    have hpos := hpd.dotProduct_mulVec_pos hne
    rw [hkernel, dotProduct_zero] at hpos
    exact lt_irrefl _ hpos
  · have hp : FilterState.covariance state = p.toGrid := rfl
    obtain ⟨sigma, hg, -, -, -, -, hsum, -⟩ := generate_moments hp hpsd hw
    exact ⟨sigma, hg, hsum⟩

end SigmaPoints

end PoseFilter
