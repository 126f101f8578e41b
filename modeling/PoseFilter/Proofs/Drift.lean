import PoseFilter.Proofs.Prediction

/-!
# Undisturbed motion

With constant velocities and nothing measured, the state after `a` and then `b` seconds is the state
after `a + b` seconds.  Three laws make this so:

* a rotation at a fixed rate about a fixed axis, `Rotation.spin`, composes by adding times
  (`Rotation.spin_mul`), and the orientation advances by it as long as the exponential does not fall
  back on its series (`Rotation.ofVector_scale`);
* the law of the error is `A(t) = 1 + t N` with `N² = 0`, so `A(b) A(a) = A(a + b)`
  (`Motion.transition_mul`);
* the noise of a step is `Q(t) = t D + t²/2 (N D + D Nᵀ) + t³/3 N D Nᵀ`, the integral of
  `A(τ) D A(τ)ᵀ` over the step, so `A(b) Q(a) A(b)ᵀ + Q(b) = Q(a + b)` (`Motion.noise_add`).

`Motion.flow` is the exact state after a time, `Motion.flow_flow` the law of composition, and
`Motion.predicted_eq_flow` says when a prediction is the flow.  `PoseState.turning` is a body to try
such statements on.
-/

open Matrix

namespace PoseFilter

/-! ### Rotation at a fixed rate -/

namespace Quaternion

theorem isUnit_identity : (identity : Quaternion ℝ).IsUnit := by
  simp [IsUnit, normSq, identity]

protected theorem mul_one (q : Quaternion ℝ) : q * identity = q := by
  ext <;> simp [mul_w, mul_x, mul_y, mul_z, identity]

protected theorem one_mul (q : Quaternion ℝ) : identity * q = q := by
  ext <;> simp [mul_w, mul_x, mul_y, mul_z, identity]

end Quaternion

namespace Vec3

theorem norm_scale (a : Vec3 ℝ) (s : ℝ) : (a.scale s).norm = a.norm * |s| := by
  change Real.sqrt ((a.scale s).dot (a.scale s)) = Real.sqrt (a.dot a) * |s|
  rw [dot_self_scale, Real.sqrt_mul a.dot_self_nonneg, Real.sqrt_sq_eq_abs]

theorem add_scale_add_scale (p v : Vec3 ℝ) (a b : ℝ) :
    p + v.scale a + v.scale b = p + v.scale (a + b) := by
  ext <;> simp only [add_x, add_y, add_z, scale] <;> ring

theorem norm_neg (a : Vec3 ℝ) : (-a).norm = a.norm := by
  rw [norm, neg_dot_neg, norm]

theorem norm_zero : (zero : Vec3 ℝ).norm = 0 := by
  change Real.sqrt (0 * 0 + 0 * 0 + 0 * 0) = 0
  rw [mul_zero, add_zero, add_zero, Real.sqrt_zero]

theorem sq_norm (a : Vec3 ℝ) : a.norm ^ 2 = a.dot a := Real.sq_sqrt a.dot_self_nonneg

theorem eq_zero_of_norm_eq_zero {a : Vec3 ℝ} (h : a.norm = 0) : a = Vec3.zero := by
  have hdot : a.x * a.x + a.y * a.y + a.z * a.z = 0 := by
    have hsq := a.sq_norm
    rw [h, zero_pow two_ne_zero] at hsq
    exact hsq.symm
  have hx := mul_self_nonneg a.x
  have hy := mul_self_nonneg a.y
  have hz := mul_self_nonneg a.z
  ext
  · exact mul_self_eq_zero.1 (by linarith)
  · exact mul_self_eq_zero.1 (by linarith)
  · exact mul_self_eq_zero.1 (by linarith)

end Vec3

namespace Rotation

/-- The rotation at the rate `ω`, after a time: half the angle is in the quaternion. -/
noncomputable def spin (ω : Vec3 ℝ) (time : ℝ) : Quaternion ℝ :=
  let v := ω.scale 0.5
  Quaternion.ofParts (Real.cos (v.norm * time)) (v.scale (Real.sin (v.norm * time) / v.norm))

/-- Also at rest, where both sides are zero. -/
theorem sin_div_norm_mul (v : Vec3 ℝ) (time : ℝ) :
    Real.sin (v.norm * time) / v.norm * v.norm = Real.sin (v.norm * time) := by
  by_cases h : v.norm = 0
  · simp [h]
  · exact div_mul_cancel₀ _ h

/-- **Times add up** in a rotation at a fixed rate. -/
theorem spin_mul (ω : Vec3 ℝ) (a b : ℝ) : spin ω a * spin ω b = spin ω (a + b) := by
  unfold spin
  generalize ω.scale 0.5 = v
  have hdot : v.x * v.x + v.y * v.y + v.z * v.z = v.norm ^ 2 := v.sq_norm.symm
  have ha := sin_div_norm_mul v a
  have hb := sin_div_norm_mul v b
  simp only [mul_add, Real.cos_add, Real.sin_add]
  set p := Real.sin (v.norm * a) / v.norm
  set q := Real.sin (v.norm * b) / v.norm
  have hsin : (Real.sin (v.norm * a) * Real.cos (v.norm * b) +
      Real.cos (v.norm * a) * Real.sin (v.norm * b)) / v.norm =
        p * Real.cos (v.norm * b) + Real.cos (v.norm * a) * q := by
    simp only [p, q]
    ring
  rw [hsin, ← ha, ← hb]
  ext
  · simp only [Quaternion.mul_w, Quaternion.ofParts, Vec3.scale]
    linear_combination -(p * q) * hdot
  · simp only [Quaternion.mul_x, Quaternion.ofParts, Vec3.scale]
    ring
  · simp only [Quaternion.mul_y, Quaternion.ofParts, Vec3.scale]
    ring
  · simp only [Quaternion.mul_z, Quaternion.ofParts, Vec3.scale]
    ring

theorem spin_isUnit (ω : Vec3 ℝ) (time : ℝ) : (spin ω time).IsUnit := by
  unfold spin
  generalize ω.scale 0.5 = v
  have hdot : v.dot v * (Real.sin (v.norm * time) / v.norm) ^ 2 = Real.sin (v.norm * time) ^ 2 := by
    rw [← v.sq_norm, mul_comm, ← mul_pow, sin_div_norm_mul]
  rw [Quaternion.IsUnit, normSq_ofParts, Vec3.dot_self_scale, hdot, Real.cos_sq_add_sin_sq]

/-- A turn that the exponential gives exactly: none, or one whose half angle is not below the cutoff
of the series. -/
def TurnsExactly (r : Vec3 ℝ) : Prop :=
  (r.scale 0.5).norm = 0 ∨ 1e-13 ≤ (r.scale 0.5).norm

theorem exp_zero : exp (Vec3.zero : Vec3 ℝ) = Quaternion.identity := by
  have hlength : Scalar.sqrt ((Vec3.zero : Vec3 ℝ).dot Vec3.zero) = (0 : ℝ) := Vec3.norm_zero
  have hcos : Scalar.cos (0 : ℝ) = 1 := Real.cos_zero
  have hvector : (Vec3.zero : Vec3 ℝ).scale (sinc (0 : ℝ)) = Vec3.zero := by
    ext <;> exact zero_mul _
  rw [exp, hlength, hcos, hvector]
  exact Quaternion.isUnit_identity.normalized_eq

theorem ofVector_zero : ofVector (Vec3.zero : Vec3 ℝ) = Quaternion.identity := by
  have hhalf : (Vec3.zero : Vec3 ℝ).scale 0.5 = Vec3.zero := by
    ext <;> exact zero_mul _
  rw [ofVector, hhalf, exp_zero]

theorem exp_scale {v : Vec3 ℝ} {time : ℝ}
    (h : (v.scale time).norm = 0 ∨ 1e-13 ≤ (v.scale time).norm) :
    exp (v.scale time) =
      Quaternion.ofParts (Real.cos (v.norm * time)) (v.scale (Real.sin (v.norm * time) / v.norm)) := by
  have hlength : (v.scale time).norm = |v.norm * time| := by
    have hnonneg : 0 ≤ v.norm := Real.sqrt_nonneg _
    rw [Vec3.norm_scale, abs_mul, abs_of_nonneg hnonneg]
  rcases h with hzero | hcut
  · have hangle : v.norm * time = 0 := by rwa [hlength, abs_eq_zero] at hzero
    rw [Vec3.eq_zero_of_norm_eq_zero hzero, exp_zero, hangle]
    ext <;> simp [Quaternion.identity, Quaternion.ofParts, Vec3.scale]
  · have hangle : v.norm * time ≠ 0 := by
      intro h0
      rw [hlength, h0, abs_zero] at hcut
      norm_num at hcut
    have hnorm : v.norm ≠ 0 := left_ne_zero_of_mul hangle
    have htime : time ≠ 0 := right_ne_zero_of_mul hangle
    -- cosine and `sin θ / θ` are even
    have hsinc : Real.sin |v.norm * time| / |v.norm * time| =
        Real.sin (v.norm * time) / (v.norm * time) := by
      rcases abs_choice (v.norm * time) with habs | habs
      · rw [habs]
      · rw [habs, Real.sin_neg, neg_div_neg_eq]
    have hfactor : time * (Real.sin (v.norm * time) / (v.norm * time)) =
        Real.sin (v.norm * time) / v.norm := by
      field_simp
    have hroot : Real.sqrt ((v.scale time).dot (v.scale time)) = |v.norm * time| := hlength
    rw [(exp_of_cutoff_le hcut).1, hroot, Real.cos_abs, hsinc, Vec3.scale_scale, hfactor]

/-- **The exponential of an exact turn** at the rate `ω` is the rotation at that rate. -/
theorem ofVector_scale {ω : Vec3 ℝ} {time : ℝ} (h : TurnsExactly (ω.scale time)) :
    ofVector (ω.scale time) = spin ω time := by
  have hswap : (ω.scale time).scale 0.5 = (ω.scale 0.5).scale time := by
    rw [Vec3.scale_scale, mul_comm, ← Vec3.scale_scale]
  unfold TurnsExactly at h
  rw [hswap] at h
  rw [ofVector, hswap, exp_scale h]
  rfl

end Rotation

/-! ### The law of the error -/

namespace Motion

/-- The nilpotent part of the law of the error: every rate feeds its value. -/
def feed : Matrix (Fin PoseState.dim) (Fin PoseState.dim) ℝ :=
  Matrix.of fun i j => if i.val + 6 = j.val then 1 else 0

/-- The density of the noise that acts on a tangent row: on the rates only. -/
def intensity (m : Motion ℝ) (i : Fin PoseState.dim) : ℝ :=
  if i.val < 6 then 0 else if i.val % 6 < 3 then m.positionNoise else m.orientationNoise

/-- The noise that acts on the error at every moment. -/
def drive (m : Motion ℝ) : Matrix (Fin PoseState.dim) (Fin PoseState.dim) ℝ :=
  Matrix.diagonal m.intensity

theorem feed_mul_feed : feed * feed = 0 := by
  ext i j
  rw [Matrix.mul_apply, Matrix.zero_apply]
  refine Finset.sum_eq_zero fun k _ => ?_
  have hdim : j.val < 12 := j.isLt
  by_cases hik : i.val + 6 = k.val
  · have hkj : ¬k.val + 6 = j.val := by omega
    simp only [feed, Matrix.of_apply, if_neg hkj, mul_zero]
  · simp only [feed, Matrix.of_apply, if_neg hik, zero_mul]

theorem transition_eq (dt : ℝ) : (transition dt 1).toMatrix = 1 + dt • feed := by
  ext i j
  rw [Mat.toMatrix_apply, transition, Mat.get_ofFn, Matrix.add_apply, Matrix.smul_apply,
    Matrix.one_apply, feed, Matrix.of_apply]
  by_cases hij : i = j
  · have hne : ¬i.val + 6 = j.val := by rw [hij]; omega
    simp [hij]
  · simp [hij]

theorem transition_mul (a b : ℝ) :
    (transition b 1).toMatrix * (transition a 1).toMatrix = (transition (a + b) 1).toMatrix := by
  simp only [transition_eq, add_mul, mul_add, one_mul, mul_one, smul_mul_assoc, mul_smul_comm,
    feed_mul_feed, smul_zero]
  module

/-! ### The noise of a step -/

theorem eq_value_or_rate (i : Fin PoseState.dim) : ∃ k, i = value k ∨ i = rate k := by
  have hdim : i.val < 12 := i.isLt
  by_cases h : i.val < 6
  · exact ⟨⟨i.val, h⟩, .inl rfl⟩
  · exact ⟨⟨i.val - 6, by omega⟩, .inr (Fin.ext (by simp only [rate]; omega))⟩

section Entries

variable (m : Motion ℝ) (i : Fin PoseState.dim) (j k : Fin 6)

@[simp]
theorem value_inj : value j = value k ↔ j = k := by
  simp only [value, Fin.ext_iff]

@[simp]
theorem rate_ne_value : rate j ≠ value k := by
  simp only [value, rate, ne_eq, Fin.ext_iff]
  omega

@[simp]
theorem rate_inj : rate j = rate k ↔ j = k := by
  simp only [rate, Fin.ext_iff, Nat.add_right_cancel_iff]

@[simp]
theorem feed_value : feed i (value k) = 0 := by
  have h : ¬i.val + 6 = (value k).val := by simp only [value]; omega
  rw [feed, Matrix.of_apply, if_neg h]

@[simp]
theorem feed_rate : feed i (rate k) = if i = value k then 1 else 0 := by
  have h : i.val + 6 = (rate k).val ↔ i = value k := by
    simp only [rate, value, Fin.ext_iff, Nat.add_right_cancel_iff]
  rw [feed, Matrix.of_apply]
  simp only [h]

@[simp]
theorem intensity_value : m.intensity (value k) = 0 := if_pos k.isLt

@[simp]
theorem intensity_rate : m.intensity (rate k) = m.density k := by
  have hrate : ¬(rate k).val < 6 := by simp only [rate]; omega
  have hmod : (rate k).val % 6 = k.val := by simp only [rate]; omega
  rw [intensity, if_neg hrate, hmod, density]

theorem feed_drive_feed_apply (i' : Fin PoseState.dim) :
    (feed * m.drive * feedᵀ) i i' =
      ∑ l, (if i = value l then 1 else 0) * m.density l * (if i' = value l then 1 else 0) := by
  rw [Matrix.mul_apply]
  simp only [drive, Matrix.mul_diagonal, Matrix.transpose_apply, sum_axes, feed_value, feed_rate,
    intensity_rate, zero_mul, zero_add]

end Entries

/-- **The noise of a step** is the drive, fed on for the rest of the step. -/
theorem noise_eq (m : Motion ℝ) (dt : ℝ) :
    (m.noise dt).toMatrix = dt • m.drive + (dt ^ 2 / 2) • (feed * m.drive + m.drive * feedᵀ) +
      (dt ^ 3 / 3) • (feed * m.drive * feedᵀ) := by
  ext i i'
  simp only [Mat.toMatrix_apply, Matrix.add_apply, Matrix.smul_apply, smul_eq_mul,
    feed_drive_feed_apply]
  simp only [drive, Matrix.mul_diagonal, Matrix.diagonal_mul, Matrix.diagonal_apply,
    Matrix.transpose_apply]
  have hthird : ∀ x, dt ^ 3 / 3 * x = x * dt ^ 3 / 3 := fun x => by ring
  have hhalf : ∀ x, dt ^ 2 / 2 * x = x * dt ^ 2 / 2 := fun x => by ring
  -- axes do not mix; on one axis the entry is that of the power of `feed` that leads to it
  obtain ⟨j, rfl | rfl⟩ := eq_value_or_rate i
  · obtain ⟨k, rfl | rfl⟩ := eq_value_or_rate i'
    · rw [noise_value_value]
      by_cases h : j = k
      · subst h
        simp [hthird]
      · simp [h]
    · rw [noise_value_rate]
      by_cases h : j = k
      · subst h
        simp [hhalf, (rate_ne_value _ _).symm]
      · simp [h, (rate_ne_value _ _).symm]
  · obtain ⟨k, rfl | rfl⟩ := eq_value_or_rate i'
    · rw [noise_comm, noise_value_rate]
      by_cases h : k = j
      · subst h
        simp [hhalf]
      · simp [h]
    · rw [noise_rate_rate]
      by_cases h : j = k
      · subst h
        simp [mul_comm]
      · simp [h]

/-- **Noise of steps adds up**: what a first step has added is carried through the second. -/
theorem noise_add (m : Motion ℝ) (a b : ℝ) :
    (transition b 1).toMatrix * (m.noise a).toMatrix * (transition b 1).toMatrixᵀ +
      (m.noise b).toMatrix = (m.noise (a + b)).toMatrix := by
  have hfeed : feedᵀ * feedᵀ = 0 := by rw [← transpose_mul, feed_mul_feed, transpose_zero]
  have hleft : ∀ X : Matrix (Fin PoseState.dim) (Fin PoseState.dim) ℝ, feed * (feed * X) = 0 := by
    intro X
    rw [← Matrix.mul_assoc, feed_mul_feed, Matrix.zero_mul]
  simp only [noise_eq, transition_eq, transpose_add, transpose_one, transpose_smul, add_mul, mul_add,
    one_mul, mul_one, smul_mul_assoc, mul_smul_comm, Matrix.mul_assoc, hfeed, hleft, smul_zero,
    zero_mul, mul_zero, smul_add]
  module

/-! ### The covariance after a time -/

/-- The covariance that a time of undisturbed motion makes of `p`. -/
noncomputable def spread (m : Motion ℝ) (p : Mat ℝ PoseState.dim PoseState.dim) (dt : ℝ) :
    Mat ℝ PoseState.dim PoseState.dim :=
  Mat.ofMatrix ((transition dt 1).toMatrix * p.symmetrized.toMatrix * (transition dt 1).toMatrixᵀ +
    (m.noise dt).toMatrix)

theorem symmetrized_carried (m : Motion ℝ) (p : Mat ℝ PoseState.dim PoseState.dim) (dt : ℝ) :
    (transition dt 1 * p * (transition dt 1).transpose + m.noise dt).symmetrized = m.spread p dt := by
  apply Mat.toMatrix_injective
  simp only [spread, Mat.toMatrix_ofMatrix, Mat.toMatrix_symmetrized, Mat.toMatrix_add,
    Mat.toMatrix_mul, Mat.toMatrix_transpose, transpose_add, transpose_mul, transpose_transpose,
    (m.isSymm_noise dt).eq, mul_smul_comm, smul_mul_assoc, mul_add, add_mul, Matrix.mul_assoc]
  module

theorem isSymm_spread (m : Motion ℝ) (p : Mat ℝ PoseState.dim PoseState.dim) (dt : ℝ) :
    (m.spread p dt).toMatrix.IsSymm := by
  rw [← symmetrized_carried, Matrix.IsSymm, Mat.toMatrix_symmetrized, transpose_smul, transpose_add,
    transpose_transpose, add_comm]

/-- **Covariances compose** by adding times. -/
theorem spread_spread (m : Motion ℝ) (p : Mat ℝ PoseState.dim PoseState.dim) (a b : ℝ) :
    m.spread (m.spread p a) b = m.spread p (a + b) := by
  apply Mat.toMatrix_injective
  rw [spread, Mat.symmetrized_of_isSymm (m.isSymm_spread p a)]
  simp only [spread, Mat.toMatrix_ofMatrix]
  rw [← transition_mul, ← noise_add, transpose_mul]
  simp only [mul_add, add_mul, Matrix.mul_assoc, add_assoc]

end Motion

/-! ### The state after a time -/

/-- Making a quaternion a unit twice is making it one once, also at zero. -/
theorem Quaternion.normalized_normalized (q : Quaternion ℝ) :
    q.normalized.normalized = q.normalized := by
  have hnonneg : 0 ≤ q.normSq := by
    unfold normSq
    nlinarith [mul_self_nonneg q.w, mul_self_nonneg q.x, mul_self_nonneg q.y, mul_self_nonneg q.z]
  rcases hnonneg.lt_or_eq with hpos | hzero
  · exact (isUnit_normalized hpos).normalized_eq
  · have hsqrt : Scalar.sqrt q.normSq = (0 : ℝ) := by
      rw [← hzero]
      exact Real.sqrt_zero
    have hnull : q.normalized = ⟨0, 0, 0, 0⟩ := by
      simp only [normalized, hsqrt, div_zero]
    rw [hnull]
    simp only [normalized, zero_div]

namespace Motion

/-- The state after a time of undisturbed motion with constant velocities. -/
noncomputable def flow (m : Motion ℝ) (s : PoseState ℝ) (dt : ℝ) : PoseState ℝ :=
  { s with
    position := s.position + s.velocity.scale dt
    orientation := Rotation.spin s.angularVelocity dt * s.orientation.normalized
    covariance :=
      match s.covariance.asMat? PoseState.dim PoseState.dim with
      | some p => (m.spread p dt).toGrid
      | none => s.covariance }

theorem covariance_flow {s : PoseState ℝ} {p : Mat ℝ PoseState.dim PoseState.dim}
    (hp : s.covariance = p.toGrid) (m : Motion ℝ) (dt : ℝ) :
    (m.flow s dt).covariance = (m.spread p dt).toGrid := by
  simp only [flow, hp, Grid.asMat?_toGrid]

/-- **Undisturbed motion composes** by adding times. -/
theorem flow_flow {s : PoseState ℝ} {p : Mat ℝ PoseState.dim PoseState.dim}
    (hp : s.covariance = p.toGrid) (m : Motion ℝ) (a b : ℝ) :
    m.flow (m.flow s a) b = m.flow s (a + b) := by
  have hposition := Vec3.add_scale_add_scale s.position s.velocity a b
  have horientation : Rotation.spin s.angularVelocity b *
      (Rotation.spin s.angularVelocity a * s.orientation.normalized).normalized =
        Rotation.spin s.angularVelocity (a + b) * s.orientation.normalized := by
    rw [(Rotation.spin_isUnit _ _).mul_normalized, Quaternion.normalized_normalized,
      ← Quaternion.mul_assoc, Rotation.spin_mul, add_comm b]
  have hcovariance : (m.flow (m.flow s a) b).covariance = (m.flow s (a + b)).covariance := by
    rw [covariance_flow (covariance_flow hp m a), covariance_flow hp, spread_spread]
  have hstates : ∀ x y : PoseState ℝ, x.position = y.position → x.orientation = y.orientation →
      x.velocity = y.velocity → x.angularVelocity = y.angularVelocity →
      x.covariance = y.covariance → x = y := by
    rintro ⟨⟩ ⟨⟩ rfl rfl rfl rfl rfl
    rfl
  exact hstates _ _ hposition horientation rfl rfl hcovariance

/-- **A prediction is undisturbed motion** when velocities are constant and the turn is exact. -/
theorem predicted_eq_flow {m : Motion ℝ} (hm : m.damping = none) {s : PoseState ℝ}
    {p : Mat ℝ PoseState.dim PoseState.dim} (hp : s.covariance = p.toGrid) {dt : ℝ} (hdt : 0 ≤ dt)
    (hturn : Rotation.TurnsExactly (s.angularVelocity.scale dt)) :
    predicted s m.toModel dt = .ok (m.flow s dt) := by
  have hone : m.attenuation dt = 1 := by rw [attenuation, hm]
  have hflow : m.flow s dt = { m.flow s dt with covariance := (m.spread p dt).toGrid } := by
    rw [← covariance_flow hp]
  rw [predicted_of_toGrid hp, if_neg (not_lt.2 hdt), if_pos (Exact.isFinite_eq dt), hflow, carried,
    hone, symmetrized_carried]
  simp only [advanceMean, Vec3.scale_one, Rotation.ofVector_scale hturn, flow,
    (Rotation.spin_isUnit _ _).mul_normalized]

end Motion

/-! ### A turning body -/

/-- A body at the origin that turns about the third axis by one radian per second. -/
noncomputable def PoseState.turning : PoseState ℝ := { initial with angularVelocity := ⟨0, 0, 1⟩ }

/-- A tracker with the standard settings for such a body. -/
noncomputable def Tracker.turning : Tracker ℝ := ⟨⟨1⟩, .standard, PoseState.turning, 0, 0, 0, 0, 0⟩

namespace PoseState

theorem norm_angularVelocity_turning : turning.angularVelocity.norm = 1 := by
  change Real.sqrt (0 * 0 + 0 * 0 + 1 * 1) = 1
  norm_num

theorem norm_half_turning (dt : ℝ) : ((turning.angularVelocity.scale dt).scale 0.5).norm = |dt| / 2 := by
  have hhalf : |(0.5 : ℝ)| = 1 / 2 := by norm_num
  rw [Vec3.norm_scale, Vec3.norm_scale, norm_angularVelocity_turning, hhalf]
  ring

theorem turnsExactly_turning {dt : ℝ} (h : dt = 0 ∨ 1 ≤ dt) :
    Rotation.TurnsExactly (turning.angularVelocity.scale dt) := by
  unfold Rotation.TurnsExactly
  rw [norm_half_turning]
  rcases h with rfl | hdt
  · exact .inl (by rw [abs_zero, zero_div])
  · refine .inr (le_trans ?_ (div_le_div_of_nonneg_right (hdt.trans (le_abs_self dt)) zero_le_two))
    norm_num

theorem predicted_turning {dt : ℝ} (h : dt = 0 ∨ 1 ≤ dt) :
    predicted turning (Motion.constantVelocity : Motion ℝ).toModel dt =
      .ok (Motion.constantVelocity.flow turning dt) := by
  have hdt : 0 ≤ dt := h.elim (fun h0 => h0.ge) fun h1 => zero_le_one.trans h1
  exact Motion.predicted_eq_flow rfl rfl hdt (turnsExactly_turning h)

theorem orientation_flow_turning (dt : ℝ) :
    (Motion.constantVelocity.flow turning dt).orientation =
      Rotation.spin turning.angularVelocity dt := by
  change Rotation.spin turning.angularVelocity dt * Quaternion.identity.normalized = _
  rw [Quaternion.isUnit_identity.normalized_eq, Quaternion.mul_one]

end PoseState

end PoseFilter
