import PoseFilter.Proofs.Drift

/-!
# How the noise of a step grows

The longer a step, the more noise it adds, and not only along the axes: the noise of a step minus that
of a shorter one is again a sum of squares, axis by axis, with the difference `t - s` of the lengths
where the noise of one step has its length (`Motion.noise_sub_form`).  With a density above zero on
every axis the squares leave no direction out, so a step that takes any time makes the error of every
direction uncertain.

* `Motion.noise_sub_posSemidef`, `Motion.noise_posDef` : the noise grows, and is definite at once.
* `Motion.transition_mulVec_value`, `Motion.transition_mulVec_rate` : what the law of the error does.
* `Motion.noise_grows_and_carries` : the noise, its growth, and the covariance that a prediction stores.
-/

open Matrix

namespace PoseFilter

namespace Motion

variable {m : Motion ℝ} {s t : ℝ}

/-! ### The noise -/

/-- **The noise of a step beyond that of a shorter one** is a sum of squares, two for every axis. -/
theorem noise_sub_form (m : Motion ℝ) (s t : ℝ) (x : Fin PoseState.dim → ℝ) :
    x ⬝ᵥ (((m.noise t).toMatrix - (m.noise s).toMatrix) *ᵥ x) = ∑ k, m.density k *
      ((t - s) * ((s + t) / 2 * x (value k) + x (rate k)) ^ 2 +
        (t - s) ^ 3 / 12 * x (value k) ^ 2) := by
  rw [sub_mulVec, dotProduct_sub, noise_form, noise_form, ← Finset.sum_sub_distrib]
  refine Finset.sum_congr rfl fun k _ => ?_
  ring

theorem noise_sub_posSemidef (hm : m.Checked) (hst : s ≤ t) :
    ((m.noise t).toMatrix - (m.noise s).toMatrix).PosSemidef := by
  have ht : 0 ≤ t - s := sub_nonneg.2 hst
  have hsymm := (m.isSymm_noise t).sub (m.isSymm_noise s)
  refine .of_dotProduct_mulVec_nonneg (Matrix.isHermitian_iff_isSymm.2 hsymm) fun x => ?_
  rw [star_trivial, noise_sub_form]
  refine Finset.sum_nonneg fun k _ => mul_nonneg (density_nonneg hm k) ?_
  positivity

theorem density_pos (hp : 0 < m.positionNoise) (ho : 0 < m.orientationNoise) (k : Fin 6) :
    0 < m.density k := by
  unfold density
  split_ifs
  · exact hp
  · exact ho

theorem noise_posDef (hp : 0 < m.positionNoise) (ho : 0 < m.orientationNoise) (ht : 0 < t) :
    (m.noise t).toMatrix.PosDef := by
  refine .of_dotProduct_mulVec_pos (Matrix.isHermitian_iff_isSymm.2 (m.isSymm_noise t)) fun x hx => ?_
  rw [star_trivial, noise_form]
  have hterm : ∀ k, 0 ≤ m.density k *
      (t * (t / 2 * x (value k) + x (rate k)) ^ 2 + t ^ 3 / 12 * x (value k) ^ 2) :=
    fun k => mul_nonneg (density_pos hp ho k).le (by positivity)
  refine lt_of_le_of_ne (Finset.sum_nonneg fun k _ => hterm k) fun hzero => hx ?_
  -- no square is left over: first the values vanish, then the rates
  have haxis : ∀ k, x (value k) = 0 ∧ x (rate k) = 0 := fun k => by
    have hk := (Finset.sum_eq_zero_iff_of_nonneg fun k _ => hterm k).1 hzero.symm k
      (Finset.mem_univ k)
    have hsquares := (mul_eq_zero.1 hk).resolve_left (density_pos hp ho k).ne'
    obtain ⟨hmixed, hsingle⟩ :=
      (add_eq_zero_iff_of_nonneg (by positivity) (by positivity)).1 hsquares
    have hcube : t ^ 3 / 12 ≠ 0 := by positivity
    have hvalue := pow_eq_zero_iff two_ne_zero |>.1 ((mul_eq_zero.1 hsingle).resolve_left hcube)
    have hsum := pow_eq_zero_iff two_ne_zero |>.1 ((mul_eq_zero.1 hmixed).resolve_left ht.ne')
    rw [hvalue, mul_zero, zero_add] at hsum
    exact ⟨hvalue, hsum⟩
  funext i
  obtain ⟨k, rfl | rfl⟩ := eq_value_or_rate i
  · exact (haxis k).1
  · exact (haxis k).2

/-! ### The law of the error -/

theorem transition_mulVec_value (dt a : ℝ) (x : Fin PoseState.dim → ℝ) (k : Fin 6) :
    ((transition dt a).toMatrix *ᵥ x) (value k) = x (value k) + a * dt * x (rate k) := by
  have hentry : ∀ j, (transition dt a).get (value k) (value j) = if k = j then 1 else 0 := fun j => by
    have hne : ¬(value k).val + 6 = (value j).val := by simp only [value]; omega
    simp only [transition, Mat.get_ofFn, value_inj, if_neg hne, (show (value k).val < 6 from k.isLt),
      if_true]
  have hfeed : ∀ j, (transition dt a).get (value k) (rate j) = if k = j then a * dt else 0 := fun j => by
    have hiff : (value k).val + 6 = (rate j).val ↔ k = j := by
      simp only [value, rate, Nat.add_right_cancel_iff, Fin.ext_iff]
    simp only [transition, Mat.get_ofFn, if_neg (rate_ne_value j k).symm, hiff]
  simp [mulVec, dotProduct, sum_axes, hentry, hfeed, Finset.sum_add_distrib]

theorem transition_mulVec_rate (dt a : ℝ) (x : Fin PoseState.dim → ℝ) (k : Fin 6) :
    ((transition dt a).toMatrix *ᵥ x) (rate k) = a * x (rate k) := by
  have hentry : ∀ j, (transition dt a).get (rate k) (rate j) = if k = j then a else 0 := fun j => by
    have hne : ¬(rate k).val + 6 = (rate j).val := by simp only [rate]; omega
    have hlate : ¬(rate k).val < 6 := by simp only [rate]; omega
    simp only [transition, Mat.get_ofFn, rate_inj, if_neg hne, if_neg hlate]
  have hnone : ∀ j, (transition dt a).get (rate k) (value j) = 0 := fun j => by
    have hne : ¬(rate k).val + 6 = (value j).val := by simp only [rate, value]; omega
    simp only [transition, Mat.get_ofFn, if_neg (rate_ne_value k j), if_neg hne]
  simp [mulVec, dotProduct, sum_axes, hentry, hnone]

theorem carried_posSemidef (dt a : ℝ) {p : Mat ℝ PoseState.dim PoseState.dim}
    (hp : p.toMatrix.PosSemidef) :
    (transition dt a * p * (transition dt a).transpose).toMatrix.PosSemidef := by
  rw [Mat.toMatrix_mul, Mat.toMatrix_mul, Mat.toMatrix_transpose,
    ← Matrix.conjTranspose_eq_transpose_of_trivial]
  exact hp.mul_mul_conjTranspose_same _

/-! ### What a prediction stores -/

theorem predict_of_isSymm {state : PoseState ℝ} {p : Mat ℝ PoseState.dim PoseState.dim}
    (hp : state.covariance = p.toGrid) (hsymm : p.toMatrix.IsSymm) (m : Motion ℝ) {dt : ℝ}
    (hdt : 0 ≤ dt) :
    (predict state m.toModel dt).result = .ok () ∧
      (predict state m.toModel dt).state.covariance =
        (transition dt (m.attenuation dt) * p * (transition dt (m.attenuation dt)).transpose +
          m.noise dt).toGrid := by
  have hsum : (transition dt (m.attenuation dt) * p *
      (transition dt (m.attenuation dt)).transpose + m.noise dt).toMatrix.IsSymm := by
    simp only [Mat.toMatrix_add, Mat.toMatrix_mul, Mat.toMatrix_transpose]
    refine Matrix.IsSymm.add ?_ (m.isSymm_noise dt)
    simp only [Matrix.IsSymm, transpose_mul, transpose_transpose, hsymm.eq, Matrix.mul_assoc]
  have hpredicted := predicted_of_toGrid hp m dt
  rw [if_neg (not_lt.2 hdt), if_pos (Exact.isFinite_eq dt)] at hpredicted
  rw [predict, hpredicted, Update.ofExcept_ok]
  refine ⟨rfl, ?_⟩
  simp only [carried, Mat.symmetrized_of_isSymm hsum]

/-- **Noise grows and is carried along.**  For all densities and dampings that pass their check and all
lengths `0 ≤ s ≤ t`: the noise `Q t` of a step is symmetric and positive semi-definite, and positive
definite if the step takes any time and neither density is zero; `Q t - Q s` is positive semi-definite.
A prediction by `t` from a state with a positive semi-definite covariance `P` succeeds and stores
`A P Aᵀ + Q t`, which is positive semi-definite, and positive definite if `P` is.  Here `A` moves each
value on by `t` times its rate, of which the share that is left after `t` counts. -/
theorem noise_grows_and_carries (hm : m.check = .ok ()) (hs : 0 ≤ s) (hst : s ≤ t) :
    (m.noise t).toMatrix.IsSymm ∧ (m.noise t).toMatrix.PosSemidef ∧
    (0 < t → 0 < m.positionNoise → 0 < m.orientationNoise → (m.noise t).toMatrix.PosDef) ∧
    ((m.noise t).toMatrix - (m.noise s).toMatrix).PosSemidef ∧
    ∀ A, A = (transition t (m.attenuation t)).toMatrix →
      (∀ x k, (A *ᵥ x) (value k) = x (value k) + m.attenuation t * t * x (rate k) ∧
        (A *ᵥ x) (rate k) = m.attenuation t * x (rate k)) ∧
      ∀ (state : PoseState ℝ) (p : Mat ℝ PoseState.dim PoseState.dim),
        state.covariance = p.toGrid → p.toMatrix.PosSemidef →
          (predict state m.toModel t).result = .ok () ∧
          ∃ p' : Mat ℝ PoseState.dim PoseState.dim,
            (predict state m.toModel t).state.covariance = p'.toGrid ∧
            p'.toMatrix = A * p.toMatrix * Aᵀ + (m.noise t).toMatrix ∧ p'.toMatrix.IsSymm ∧
            p'.toMatrix.PosSemidef ∧ (p.toMatrix.PosDef → p'.toMatrix.PosDef) := by
  have hchecked := check_spec hm
  have ht : 0 ≤ t := hs.trans hst
  have hnoise := noise_posSemidef hchecked ht
  refine ⟨m.isSymm_noise t, hnoise, fun hpos hp ho => noise_posDef hp ho hpos,
    noise_sub_posSemidef hchecked hst, ?_⟩
  rintro A rfl
  refine ⟨fun x k => ⟨transition_mulVec_value t _ x k, transition_mulVec_rate t _ x k⟩, ?_⟩
  intro state p hp hpsd
  obtain ⟨hresult, hstored⟩ := predict_of_isSymm hp (isSymm_of_posSemidef hpsd) m ht
  have hsum := (carried_posSemidef t (m.attenuation t) hpsd).add hnoise
  rw [← Mat.toMatrix_add] at hsum
  refine ⟨hresult, _, hstored, ?_, isSymm_of_posSemidef hsum, hsum, fun hpd => ?_⟩
  · simp only [Mat.toMatrix_add, Mat.toMatrix_mul, Mat.toMatrix_transpose]
  · rw [Mat.toMatrix_add]
    exact (carried_posDef t (attenuation_pos hchecked t).ne' hpd).add_posSemidef hnoise

/-- Damped motion: noise in every direction after two seconds, more than after one, and a body at rest
that is predicted two seconds ahead. -/
theorem noise_grows_and_carries_damped :
    let m : Motion ℝ := Motion.damped
    (m.check = .ok () ∧ (0 : ℝ) ≤ 1 ∧ (1 : ℝ) ≤ 2) ∧ (m.noise 2).toMatrix.PosDef ∧
      ((m.noise 2).toMatrix - (m.noise 1).toMatrix).PosSemidef ∧
      ∃ p' : Mat ℝ PoseState.dim PoseState.dim,
        (predict PoseState.initial m.toModel 2).state.covariance = p'.toGrid ∧
          p'.toMatrix.PosDef := by
  intro m
  obtain ⟨-, -, hdefinite, hgrows, hpredict⟩ :=
    noise_grows_and_carries (m := m) check_damped zero_le_one one_le_two
  have hposition : 0 < m.positionNoise := by norm_num [m, damped, defaultPositionNoise]
  have horientation : 0 < m.orientationNoise := by norm_num [m, damped, defaultOrientationNoise]
  have hinitial := Mat.posDef_scalar (n := PoseState.dim)
    (show (0 : ℝ) < PoseState.initialVariance by norm_num [PoseState.initialVariance])
  obtain ⟨-, p', hp', -, -, -, hpd⟩ :=
    (hpredict _ rfl).2 PoseState.initial (Mat.scalar _ _) rfl hinitial.posSemidef
  exact ⟨⟨check_damped, zero_le_one, one_le_two⟩, hdefinite two_pos hposition horientation, hgrows, p',
    hp', hpd hinitial⟩

end Motion

end PoseFilter
