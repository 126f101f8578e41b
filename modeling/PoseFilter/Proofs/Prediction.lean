import PoseFilter.Proofs.Results
import PoseFilter.Proofs.RotationMaps
import PoseFilter.Proofs.Transitions

/-!
# Exact predictions

A step carries a covariance `P` to `A P Aᵀ + Q`.  The law `A` of the error is triangular with the
attenuation of the velocities on its diagonal, which is never zero, and the noise `Q` of the step is
a sum of squares, axis by axis:
`μ dt³/3 a² + μ dt² a b + μ dt b² = μ dt (dt/2 a + b)² + μ dt³/12 a²`.
So a prediction from a sound state always succeeds and ends in a sound state (`predicted_sound`).

* `PoseState.Sound` : a unit orientation and a positive definite covariance of the right shape.
* `Motion.check_spec` : what the check of a motion promises.
* `Motion.isUnit_transition`, `Motion.noise_posSemidef` : the two facts about a step.
-/

open Matrix

namespace PoseFilter

/-- A state that the exact filter can work with: its orientation is a unit quaternion and its
covariance a positive definite matrix over the tangent space. -/
structure PoseState.Sound (s : PoseState ℝ) : Prop where
  unit : s.orientation.IsUnit
  posDef : ∃ p : Mat ℝ PoseState.dim PoseState.dim, s.covariance = p.toGrid ∧ p.toMatrix.PosDef

namespace Motion

/-! ### Checked motions -/

/-- The ranges that a checked motion is in. -/
structure Checked (m : Motion ℝ) : Prop where
  position_nonneg : 0 ≤ m.positionNoise
  orientation_nonneg : 0 ≤ m.orientationNoise
  damping_pos : ∀ d, m.damping = some d → 0 < d

theorem nonneg_of_checkDensity {name : String} {x : ℝ} (h : checkDensity name x = .ok ()) : 0 ≤ x := by
  by_contra hneg
  rw [checkDensity, if_neg fun hc => hneg hc.2] at h
  cases h

theorem check_spec {m : Motion ℝ} (h : m.check = .ok ()) : m.Checked := by
  obtain ⟨hposition, h⟩ := bind_unit_eq_ok_iff.1 h
  obtain ⟨horientation, h⟩ := bind_unit_eq_ok_iff.1 h
  refine ⟨nonneg_of_checkDensity hposition, nonneg_of_checkDensity horientation, fun d hd => ?_⟩
  simp only [hd] at h
  by_contra hneg
  rw [if_neg fun hc => hneg hc.1] at h
  cases h

theorem check_constantVelocity : (constantVelocity : Motion ℝ).check = .ok () := by
  norm_num [check, checkDensity, constantVelocity, defaultPositionNoise, defaultOrientationNoise,
    bind, Except.bind, pure, Except.pure]

theorem check_damped : (damped : Motion ℝ).check = .ok () := by
  norm_num [check, checkDensity, damped, defaultPositionNoise, defaultOrientationNoise,
    defaultDamping, bind, Except.bind, pure, Except.pure]

theorem attenuation_pos {m : Motion ℝ} (h : m.Checked) (dt : ℝ) : 0 < m.attenuation dt := by
  unfold attenuation
  cases hd : m.damping with
  | none => exact one_pos
  | some d => exact Real.rpow_pos_of_pos (h.damping_pos d hd) dt

/-! ### The law of the error -/

theorem isUpperTriangular_transition (dt a : ℝ) :
    (transition dt a).toMatrix.IsUpperTriangular := by
  intro i j hij
  have hne : i ≠ j := (ne_of_lt hij).symm
  have hval : j.val < i.val := hij
  have hrate : ¬i.val + 6 = j.val := by omega
  rw [Mat.toMatrix_apply, transition, Mat.get_ofFn, if_neg hne, if_neg hrate]

theorem isUnit_transition {dt a : ℝ} (ha : a ≠ 0) : IsUnit (transition dt a).toMatrix := by
  rw [Matrix.isUnit_iff_isUnit_det, isUnit_iff_ne_zero,
    Matrix.det_of_isUpperTriangular (isUpperTriangular_transition dt a)]
  refine Finset.prod_ne_zero_iff.2 fun i _ => ?_
  rw [Mat.toMatrix_apply, transition, Mat.get_ofFn, if_pos rfl]
  split_ifs
  · exact one_ne_zero
  · exact ha

theorem carried_posDef (dt : ℝ) {a : ℝ} (ha : a ≠ 0) {p : Mat ℝ PoseState.dim PoseState.dim}
    (hp : p.toMatrix.PosDef) :
    (transition dt a * p * (transition dt a).transpose).toMatrix.PosDef := by
  rw [Mat.toMatrix_mul, Mat.toMatrix_mul, Mat.toMatrix_transpose,
    ← Matrix.conjTranspose_eq_transpose_of_trivial]
  exact hp.mul_mul_conjTranspose_same
    (Matrix.vecMul_injective_iff_isUnit.2 (isUnit_transition ha))

/-! ### The noise of a step -/

/-- The tangent row of a value, by its axis: position, then rotation. -/
def value (k : Fin 6) : Fin PoseState.dim := ⟨k.val, by unfold PoseState.dim; omega⟩

/-- The tangent row of the rate of a value. -/
def rate (k : Fin 6) : Fin PoseState.dim := ⟨k.val + 6, by unfold PoseState.dim; omega⟩

theorem sum_axes (f : Fin PoseState.dim → ℝ) : ∑ i, f i = ∑ k, (f (value k) + f (rate k)) := by
  rw [Finset.sum_add_distrib]
  refine (Fin.sum_univ_add (a := 6) (b := 6) f).trans (congrArg _ ?_)
  refine Finset.sum_congr rfl fun k _ => congrArg f (Fin.ext ?_)
  exact Nat.add_comm 6 k.val

/-- The density of the noise along an axis. -/
def density (m : Motion ℝ) (k : Fin 6) : ℝ := if k.val < 3 then m.positionNoise else m.orientationNoise

theorem density_nonneg {m : Motion ℝ} (h : m.Checked) (k : Fin 6) : 0 ≤ m.density k := by
  unfold density
  split_ifs
  · exact h.position_nonneg
  · exact h.orientation_nonneg

section Entries

variable (m : Motion ℝ) (dt : ℝ) (j k : Fin 6)

theorem noise_value_value :
    (m.noise dt).get (value j) (value k) = if j = k then m.density j * dt ^ 3 / 3 else 0 := by
  have hj : j.val % 6 = j.val := Nat.mod_eq_of_lt j.isLt
  by_cases h : j = k
  · subst h
    simp only [noise, Mat.get_ofFn, if_true, value, hj, j.isLt]
    have hthree : (3.0 : ℝ) = 3 := by norm_num
    change m.density j * (dt * dt * dt) / 3.0 = _
    rw [hthree]
    ring
  · have hv : j.val ≠ k.val := fun hc => h (Fin.ext hc)
    have hne : value j ≠ value k := fun hc => hv (Fin.mk.inj hc)
    have hoff : ¬((value j).val + 6 = (value k).val ∨ (value k).val + 6 = (value j).val) := by
      simp only [value]
      omega
    rw [noise, Mat.get_ofFn, if_neg hne, if_neg hoff, if_neg h]

theorem noise_rate_rate :
    (m.noise dt).get (rate j) (rate k) = if j = k then m.density j * dt else 0 := by
  have hj : (j.val + 6) % 6 = j.val := by omega
  by_cases h : j = k
  · subst h
    have hlt : ¬j.val + 6 < 6 := by omega
    simp only [noise, Mat.get_ofFn, if_true, rate, density, hj, hlt, if_false]
  · have hv : j.val ≠ k.val := fun hc => h (Fin.ext hc)
    have hne : rate j ≠ rate k := fun hc => hv (Nat.add_right_cancel (Fin.mk.inj hc))
    have hoff : ¬((rate j).val + 6 = (rate k).val ∨ (rate k).val + 6 = (rate j).val) := by
      simp only [rate]
      omega
    rw [noise, Mat.get_ofFn, if_neg hne, if_neg hoff, if_neg h]

theorem noise_value_rate :
    (m.noise dt).get (value j) (rate k) = if j = k then m.density j * dt ^ 2 / 2 else 0 := by
  have hj : j.val % 6 = j.val := Nat.mod_eq_of_lt j.isLt
  have hne : value j ≠ rate k := fun hc => by
    have hval : j.val = k.val + 6 := Fin.mk.inj hc
    omega
  by_cases h : j = k
  · subst h
    have hon : (value j).val + 6 = (rate j).val ∨ (rate j).val + 6 = (value j).val := .inl rfl
    rw [noise, Mat.get_ofFn, if_neg hne, if_pos hon, if_pos rfl]
    simp only [value, hj]
    have htwo : (2.0 : ℝ) = 2 := by norm_num
    change m.density j * (dt * dt) / 2.0 = _
    rw [htwo]
    ring
  · have hv : j.val ≠ k.val := fun hc => h (Fin.ext hc)
    have hoff : ¬((value j).val + 6 = (rate k).val ∨ (rate k).val + 6 = (value j).val) := by
      simp only [value, rate]
      omega
    rw [noise, Mat.get_ofFn, if_neg hne, if_neg hoff, if_neg h]

end Entries

theorem noise_comm (m : Motion ℝ) (dt : ℝ) (i j : Fin PoseState.dim) :
    (m.noise dt).get i j = (m.noise dt).get j i := by
  by_cases h : i = j
  · rw [h]
  · by_cases hoff : i.val + 6 = j.val ∨ j.val + 6 = i.val
    · have hmod : i.val % 6 = j.val % 6 := by omega
      simp only [noise, Mat.get_ofFn, if_neg h, if_neg (Ne.symm h), if_pos hoff, if_pos hoff.symm,
        hmod]
    · have hoff' : ¬(j.val + 6 = i.val ∨ i.val + 6 = j.val) := fun hc => hoff hc.symm
      simp only [noise, Mat.get_ofFn, if_neg h, if_neg (Ne.symm h), if_neg hoff, if_neg hoff']

theorem isSymm_noise (m : Motion ℝ) (dt : ℝ) : (m.noise dt).toMatrix.IsSymm := by
  ext i j
  rw [Matrix.transpose_apply, Mat.toMatrix_apply, Mat.toMatrix_apply, noise_comm]

/-- **The noise of a step is a sum of squares**, two for every axis. -/
theorem noise_form (m : Motion ℝ) (dt : ℝ) (x : Fin PoseState.dim → ℝ) :
    x ⬝ᵥ ((m.noise dt).toMatrix *ᵥ x) = ∑ k, m.density k *
      (dt * (dt / 2 * x (value k) + x (rate k)) ^ 2 + dt ^ 3 / 12 * x (value k) ^ 2) := by
  have hrow : ∀ i, ((m.noise dt).toMatrix *ᵥ x) i =
      ∑ k, ((m.noise dt).get i (value k) * x (value k) + (m.noise dt).get i (rate k) * x (rate k)) :=
    fun i => by simp only [mulVec, dotProduct, Mat.toMatrix_apply, sum_axes]
  have hvalue : ∀ k, ((m.noise dt).toMatrix *ᵥ x) (value k) =
      m.density k * dt ^ 3 / 3 * x (value k) + m.density k * dt ^ 2 / 2 * x (rate k) := fun k => by
    rw [hrow]
    simp [noise_value_value, noise_value_rate, Finset.sum_add_distrib]
  have hrate : ∀ k, ((m.noise dt).toMatrix *ᵥ x) (rate k) =
      m.density k * dt ^ 2 / 2 * x (value k) + m.density k * dt * x (rate k) := fun k => by
    rw [hrow]
    simp [noise_comm m dt (rate k) (value _), noise_value_rate, noise_rate_rate,
      Finset.sum_add_distrib]
  -- the axes do not mix, and each is a square completed
  rw [dotProduct, sum_axes]
  refine Finset.sum_congr rfl fun k _ => ?_
  rw [hvalue, hrate]
  ring

theorem noise_posSemidef {m : Motion ℝ} (h : m.Checked) {dt : ℝ} (hdt : 0 ≤ dt) :
    (m.noise dt).toMatrix.PosSemidef := by
  refine .of_dotProduct_mulVec_nonneg (Matrix.isHermitian_iff_isSymm.2 (m.isSymm_noise dt)) fun x => ?_
  rw [star_trivial, noise_form]
  refine Finset.sum_nonneg fun k _ => mul_nonneg (density_nonneg h k) ?_
  positivity

end Motion

/-! ### The prediction -/

open Motion in
/-- **A prediction keeps a sound state sound**, for every checked motion and every step that does
not run backwards. -/
theorem predicted_sound {s : PoseState ℝ} (hs : s.Sound) {m : Motion ℝ} (hm : m.Checked) {dt : ℝ}
    (hdt : 0 ≤ dt) : ∃ s', predicted s m.toModel dt = .ok s' ∧ s'.Sound := by
  obtain ⟨p, hp, hpd⟩ := hs.posDef
  have hsum := (carried_posDef dt (attenuation_pos hm dt).ne' hpd).add_posSemidef
    (noise_posSemidef hm hdt)
  rw [← Mat.toMatrix_add] at hsum
  refine ⟨m.carried s p dt, ?_, ?_, _, rfl, ?_⟩
  · rw [predicted_of_toGrid hp, if_neg (not_lt.2 hdt), if_pos (Exact.isFinite_eq dt)]
  · exact Rotation.isUnit_turned hs.unit _
  · rwa [Mat.symmetrized_of_isSymm (isSymm_of_posSemidef hsum.posSemidef)]

end PoseFilter
