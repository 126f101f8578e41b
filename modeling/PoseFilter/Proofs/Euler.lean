import PoseFilter.Proofs.DoubleCover
import PoseFilter.Scenario.Tree

/-!
# Roll, pitch and yaw of an orientation

Roll, pitch and yaw are read off the rotation matrix of a quaternion (`Quaternion.matrix`), in one way
where the pitch is not a right angle and in another where it is and roll and yaw turn about the same
axis.  Over the real numbers both ways lose nothing but the sign of the quaternion, which makes no
difference to the rotation.

* `Quaternion.sameTurn_of_matrix_eq` : the matrix determines a unit quaternion up to its sign.
* `Rotation.matrix_ofEuler` : the matrix of given angles.
* `Rotation.sameTurn_ofEuler_toEuler` : from a unit quaternion to angles and back.
-/

open Matrix

namespace PoseFilter

namespace Quaternion

/-- The rotation matrix of a unit quaternion. -/
def matrix (q : Quaternion ℝ) : Matrix (Fin 3) (Fin 3) ℝ :=
  !![q.w * q.w + q.x * q.x - q.y * q.y - q.z * q.z, 2 • (q.x * q.y - q.w * q.z),
      2 • (q.w * q.y + q.x * q.z);
    2 • (q.w * q.z + q.x * q.y), q.w * q.w - q.x * q.x + q.y * q.y - q.z * q.z,
      2 • (q.y * q.z - q.w * q.x);
    2 • (q.x * q.z - q.w * q.y), 2 • (q.w * q.x + q.y * q.z),
      q.w * q.w - q.x * q.x - q.y * q.y + q.z * q.z]

variable {p q : Quaternion ℝ}

/-- Quaternions with the same products of components point the same way or opposite ways: their inner
product is `1` or `-1`, and it takes one to the other. -/
theorem sameTurn_of_products_eq (hq : q.IsUnit) (hww : p.w * p.w = q.w * q.w)
    (hwx : p.w * p.x = q.w * q.x) (hwy : p.w * p.y = q.w * q.y) (hwz : p.w * p.z = q.w * q.z)
    (hxx : p.x * p.x = q.x * q.x) (hxy : p.x * p.y = q.x * q.y) (hxz : p.x * p.z = q.x * q.z)
    (hyy : p.y * p.y = q.y * q.y) (hyz : p.y * p.z = q.y * q.z) (hzz : p.z * p.z = q.z * q.z) :
    q.SameTurn p := by
  obtain ⟨s, hs⟩ : ∃ s, s = p.w * q.w + p.x * q.x + p.y * q.y + p.z * q.z := ⟨_, rfl⟩
  have hnorm : q.w * q.w + q.x * q.x + q.y * q.y + q.z * q.z = 1 := hq
  have hw : s * p.w = q.w := by
    linear_combination p.w * hs + q.w * hww + q.x * hwx + q.y * hwy + q.z * hwz + q.w * hnorm
  have hx : s * p.x = q.x := by
    linear_combination p.x * hs + q.w * hwx + q.x * hxx + q.y * hxy + q.z * hxz + q.x * hnorm
  have hy : s * p.y = q.y := by
    linear_combination p.y * hs + q.w * hwy + q.x * hxy + q.y * hyy + q.z * hyz + q.y * hnorm
  have hz : s * p.z = q.z := by
    linear_combination p.z * hs + q.w * hwz + q.x * hxz + q.y * hyz + q.z * hzz + q.z * hnorm
  have hsq : s * s = 1 := by
    linear_combination s * hs + q.w * hw + q.x * hx + q.y * hy + q.z * hz + hnorm
  rcases mul_self_eq_one_iff.1 hsq with rfl | rfl
  · left
    ext <;> linarith
  · right
    ext
    · rw [neg_w]; linarith
    · rw [neg_x]; linarith
    · rw [neg_y]; linarith
    · rw [neg_z]; linarith

/-- **The matrix determines a unit quaternion** up to its sign. -/
theorem sameTurn_of_matrix_eq (hp : p.IsUnit) (hq : q.IsUnit) (h : p.matrix = q.matrix) :
    q.SameTurn p := by
  have entry : ∀ i j, p.matrix i j = q.matrix i j := fun i j => congrFun (congrFun h i) j
  have h00 := entry 0 0
  have h01 := entry 0 1
  have h02 := entry 0 2
  have h10 := entry 1 0
  have h11 := entry 1 1
  have h12 := entry 1 2
  have h20 := entry 2 0
  have h21 := entry 2 1
  have h22 := entry 2 2
  simp only [matrix, Matrix.of_apply, Matrix.cons_val] at h00 h01 h02 h10 h11 h12 h20 h21 h22
  have hnorm : p.normSq = q.normSq := hp.trans hq.symm
  unfold normSq at hnorm
  -- each product of components is a combination of entries and the squared length
  apply sameTurn_of_products_eq hq
  · linear_combination (hnorm + h00 + h11 + h22) / 4
  · linear_combination (h21 - h12) / 4
  · linear_combination (h02 - h20) / 4
  · linear_combination (h10 - h01) / 4
  · linear_combination (hnorm + h00 - h11 - h22) / 4
  · linear_combination (h10 + h01) / 4
  · linear_combination (h02 + h20) / 4
  · linear_combination (hnorm - h00 + h11 - h22) / 4
  · linear_combination (h12 + h21) / 4
  · linear_combination (hnorm - h00 - h11 + h22) / 4

/-! ### What determines a rotation matrix -/

theorem IsUnit.lengths (hq : q.IsUnit) :
    q.matrix 2 0 ^ 2 + q.matrix 2 1 ^ 2 + q.matrix 2 2 ^ 2 = 1 ∧
      q.matrix 0 0 ^ 2 + q.matrix 1 0 ^ 2 + q.matrix 2 0 ^ 2 = 1 ∧
      q.matrix 0 0 ^ 2 + q.matrix 0 1 ^ 2 + q.matrix 0 2 ^ 2 = 1 := by
  have hnorm : q.normSq = 1 := hq
  have hsq : q.normSq * q.normSq = 1 := by rw [hnorm, one_mul]
  unfold normSq at hsq
  simp only [matrix, Matrix.of_apply, Matrix.cons_val]
  refine ⟨?_, ?_, ?_⟩
  · linear_combination hsq
  · linear_combination hsq
  · linear_combination hsq

theorem IsUnit.cofactors (hq : q.IsUnit) :
    q.matrix 0 1 = q.matrix 1 2 * q.matrix 2 0 - q.matrix 1 0 * q.matrix 2 2 ∧
      q.matrix 0 2 = q.matrix 1 0 * q.matrix 2 1 - q.matrix 1 1 * q.matrix 2 0 ∧
      q.matrix 1 1 = q.matrix 0 0 * q.matrix 2 2 - q.matrix 0 2 * q.matrix 2 0 ∧
      q.matrix 1 2 = q.matrix 0 1 * q.matrix 2 0 - q.matrix 0 0 * q.matrix 2 1 := by
  have hnorm : q.w * q.w + q.x * q.x + q.y * q.y + q.z * q.z = 1 := hq
  simp only [matrix, Matrix.of_apply, Matrix.cons_val]
  refine ⟨?_, ?_, ?_, ?_⟩
  · linear_combination (-(2 * (q.x * q.y - q.w * q.z))) * hnorm
  · linear_combination (-(2 * (q.x * q.z + q.w * q.y))) * hnorm
  · linear_combination (-(q.w * q.w - q.x * q.x + q.y * q.y - q.z * q.z)) * hnorm
  · linear_combination (-(2 * (q.y * q.z - q.w * q.x))) * hnorm

/-- The first column and the last row determine a rotation, unless they meet in a one. -/
theorem matrix_eq_of_edges (hp : p.IsUnit) (hq : q.IsUnit) (h00 : p.matrix 0 0 = q.matrix 0 0)
    (h10 : p.matrix 1 0 = q.matrix 1 0) (h20 : p.matrix 2 0 = q.matrix 2 0)
    (h21 : p.matrix 2 1 = q.matrix 2 1) (h22 : p.matrix 2 2 = q.matrix 2 2)
    (hne : 1 - q.matrix 2 0 ^ 2 ≠ 0) : p.matrix = q.matrix := by
  obtain ⟨p01, p02, p11, p12⟩ := hp.cofactors
  obtain ⟨q01, q02, q11, q12⟩ := hq.cofactors
  rw [h10, h20, h22] at p01
  rw [h10, h20, h21] at p02
  rw [h00, h20, h22] at p11
  rw [h00, h20, h21] at p12
  -- the other entries solve two pairs of linear equations with this determinant
  have h01 : p.matrix 0 1 = q.matrix 0 1 := by
    apply mul_left_cancel₀ hne
    linear_combination p01 - q01 + q.matrix 2 0 * (p12 - q12)
  have h02 : p.matrix 0 2 = q.matrix 0 2 := by
    apply mul_left_cancel₀ hne
    linear_combination p02 - q02 - q.matrix 2 0 * (p11 - q11)
  have h11 : p.matrix 1 1 = q.matrix 1 1 := by rw [p11, q11, h02]
  have h12 : p.matrix 1 2 = q.matrix 1 2 := by rw [p12, q12, h01]
  rw [Matrix.eta_fin_three p.matrix, Matrix.eta_fin_three q.matrix, h00, h01, h02, h10, h11, h12, h20,
    h21, h22]

theorem IsUnit.edges_of_corner (hq : q.IsUnit) (hone : q.matrix 2 0 ^ 2 = 1) :
    q.matrix 0 0 = 0 ∧ q.matrix 1 0 = 0 ∧ q.matrix 2 1 = 0 ∧ q.matrix 2 2 = 0 := by
  obtain ⟨hrow, hcolumn, -⟩ := hq.lengths
  refine ⟨?_, ?_, ?_, ?_⟩
  all_goals
    apply pow_eq_zero_iff two_ne_zero |>.1
    nlinarith [sq_nonneg (q.matrix 0 0), sq_nonneg (q.matrix 1 0), sq_nonneg (q.matrix 2 1),
      sq_nonneg (q.matrix 2 2)]

/-- If they meet in a one, the rest of the first row determines the rotation. -/
theorem matrix_eq_of_corner (hp : p.IsUnit) (hq : q.IsUnit) (h01 : p.matrix 0 1 = q.matrix 0 1)
    (h02 : p.matrix 0 2 = q.matrix 0 2) (h20 : p.matrix 2 0 = q.matrix 2 0)
    (hone : q.matrix 2 0 ^ 2 = 1) : p.matrix = q.matrix := by
  obtain ⟨p00, p10, p21, p22⟩ := hp.edges_of_corner (by rw [h20, hone])
  obtain ⟨q00, q10, q21, q22⟩ := hq.edges_of_corner hone
  obtain ⟨-, -, p11, p12⟩ := hp.cofactors
  obtain ⟨-, -, q11, q12⟩ := hq.cofactors
  have h11 : p.matrix 1 1 = q.matrix 1 1 := by rw [p11, q11, p00, q00, h02, h20, p22, q22]
  have h12 : p.matrix 1 2 = q.matrix 1 2 := by rw [p12, q12, p00, q00, h01, h20, p21, q21]
  rw [Matrix.eta_fin_three p.matrix, Matrix.eta_fin_three q.matrix, h01, h02, h11, h12, h20, p00, q00,
    p10, q10, p21, q21, p22, q22]

end Quaternion

namespace Rotation

/-! ### The matrix of given angles -/

theorem half_angle (θ : ℝ) :
    Real.sin θ = 2 * Real.sin (θ * 0.5) * Real.cos (θ * 0.5) ∧
      Real.cos θ = Real.cos (θ * 0.5) ^ 2 - Real.sin (θ * 0.5) ^ 2 := by
  have hhalf : θ = 2 * (θ * 0.5) := by ring
  exact ⟨by rw [← Real.sin_two_mul, ← hhalf], by rw [← Real.cos_two_mul', ← hhalf]⟩

theorem ofEuler_isUnit (roll pitch yaw : ℝ) : (ofEuler roll pitch yaw).IsUnit := by
  have hr := Real.sin_sq_add_cos_sq (roll * 0.5)
  have hp := Real.sin_sq_add_cos_sq (pitch * 0.5)
  have hy := Real.sin_sq_add_cos_sq (yaw * 0.5)
  simp only [Quaternion.IsUnit, Quaternion.normSq, ofEuler, Scalar.sin, Scalar.cos]
  generalize Real.sin (roll * 0.5) = sr, Real.cos (roll * 0.5) = cr at *
  generalize Real.sin (pitch * 0.5) = sp, Real.cos (pitch * 0.5) = cp at *
  generalize Real.sin (yaw * 0.5) = sy, Real.cos (yaw * 0.5) = cy at *
  linear_combination (sp ^ 2 + cp ^ 2) * (sy ^ 2 + cy ^ 2) * hr + (sy ^ 2 + cy ^ 2) * hp + hy

/-- **The matrix of a roll, then a pitch, then a yaw.** -/
theorem matrix_ofEuler (roll pitch yaw : ℝ) : (ofEuler roll pitch yaw).matrix =
    !![Real.cos yaw * Real.cos pitch,
        Real.cos yaw * Real.sin pitch * Real.sin roll - Real.sin yaw * Real.cos roll,
        Real.cos yaw * Real.sin pitch * Real.cos roll + Real.sin yaw * Real.sin roll;
      Real.sin yaw * Real.cos pitch,
        Real.sin yaw * Real.sin pitch * Real.sin roll + Real.cos yaw * Real.cos roll,
        Real.sin yaw * Real.sin pitch * Real.cos roll - Real.cos yaw * Real.sin roll;
      -Real.sin pitch, Real.cos pitch * Real.sin roll, Real.cos pitch * Real.cos roll] := by
  have hr := Real.sin_sq_add_cos_sq (roll * 0.5)
  have hp := Real.sin_sq_add_cos_sq (pitch * 0.5)
  have hy := Real.sin_sq_add_cos_sq (yaw * 0.5)
  rw [(half_angle roll).1, (half_angle roll).2, (half_angle pitch).1, (half_angle pitch).2,
    (half_angle yaw).1, (half_angle yaw).2]
  simp only [Quaternion.matrix, ofEuler, Scalar.sin, Scalar.cos]
  generalize Real.sin (roll * 0.5) = sr, Real.cos (roll * 0.5) = cr at *
  generalize Real.sin (pitch * 0.5) = sp, Real.cos (pitch * 0.5) = cp at *
  generalize Real.sin (yaw * 0.5) = sy, Real.cos (yaw * 0.5) = cy at *
  simp only [EmbeddingLike.apply_eq_iff_eq, Matrix.vecCons_inj, and_true]
  -- an angle that an entry does not have stands in it as the square sum of its half angle
  refine ⟨⟨?_, ?_, ?_⟩, ⟨?_, ?_, ?_⟩, ?_, ?_, ?_⟩
  · linear_combination (cy ^ 2 - sy ^ 2) * (cp ^ 2 - sp ^ 2) * hr
  · linear_combination -(2 * sy * cy) * (cr ^ 2 - sr ^ 2) * hp
  · linear_combination (2 * sy * cy) * (2 * sr * cr) * hp
  · linear_combination (2 * sy * cy) * (cp ^ 2 - sp ^ 2) * hr
  · linear_combination (cy ^ 2 - sy ^ 2) * (cr ^ 2 - sr ^ 2) * hp
  · linear_combination -(cy ^ 2 - sy ^ 2) * (2 * sr * cr) * hp
  · linear_combination -(2 * sp * cp) * ((sy ^ 2 + cy ^ 2) * hr + hy)
  · linear_combination (cp ^ 2 - sp ^ 2) * (2 * sr * cr) * hy
  · linear_combination (cp ^ 2 - sp ^ 2) * (cr ^ 2 - sr ^ 2) * hy

/-! ### From a quaternion to angles and back -/

theorem cos_sin_atan2 {x y : ℝ} (h : x ^ 2 + y ^ 2 = 1) :
    Real.cos (Scalar.atan2 y x) = x ∧ Real.sin (Scalar.atan2 y x) = y := by
  have hnorm : ‖(⟨x, y⟩ : ℂ)‖ = 1 := by
    rw [Complex.norm_def, Complex.normSq_mk, ← sq, ← sq, h, Real.sqrt_one]
  have hne : (⟨x, y⟩ : ℂ) ≠ 0 := norm_ne_zero_iff.1 (hnorm ▸ one_ne_zero)
  have hcos := Complex.cos_arg hne
  have hsin := Complex.sin_arg (⟨x, y⟩ : ℂ)
  rw [hnorm, div_one] at hcos hsin
  exact ⟨hcos, hsin⟩

theorem toEuler_eq (q : Quaternion ℝ) : toEuler q =
    if |q.matrix 2 0| < 1 then
      let c := Real.cos (-Real.arcsin (q.matrix 2 0))
      ⟨Scalar.atan2 (q.matrix 2 1 / c) (q.matrix 2 2 / c), -Real.arcsin (q.matrix 2 0),
        Scalar.atan2 (q.matrix 1 0 / c) (q.matrix 0 0 / c)⟩
    else if q.matrix 2 0 ≤ -1 then ⟨Scalar.atan2 (q.matrix 0 1) (q.matrix 0 2), Real.pi / 2, 0⟩
    else ⟨-Scalar.atan2 (q.matrix 0 1) (-q.matrix 0 2), -(Real.pi / 2), 0⟩ := by
  have htwo : (2.0 : ℝ) = 2 := by norm_num
  have hsub : ∀ a b : ℝ, a * 2.0 - b * 2.0 = 2 • (a - b) := by
    intro a b
    rw [htwo]
    ring
  have hadd : ∀ a b : ℝ, a * 2.0 + b * 2.0 = 2 • (a + b) := by
    intro a b
    rw [htwo]
    ring
  simp only [toEuler, Exact.magnitude_eq, hsub, hadd]
  rw [htwo]
  rfl

variable {q : Quaternion ℝ}

/-- Where the pitch is not a right angle, its cosine can be divided by. -/
theorem matrix_ofEuler_toEuler_of_lt (hq : q.IsUnit) (h : |q.matrix 2 0| < 1) :
    (ofEuler (toEuler q).x (toEuler q).y (toEuler q).z).matrix = q.matrix := by
  obtain ⟨hlow, hhigh⟩ := abs_lt.1 h
  have hrest : 0 < 1 - q.matrix 2 0 ^ 2 := by nlinarith
  obtain ⟨pitch, hpitch⟩ : ∃ pitch, pitch = -Real.arcsin (q.matrix 2 0) := ⟨_, rfl⟩
  have hsin : Real.sin pitch = -q.matrix 2 0 := by
    rw [hpitch, Real.sin_neg, Real.sin_arcsin hlow.le hhigh.le]
  have hcos : Real.cos pitch ^ 2 = 1 - q.matrix 2 0 ^ 2 := by
    rw [hpitch, Real.cos_neg, Real.cos_arcsin, Real.sq_sqrt hrest.le]
  have hne : Real.cos pitch ≠ 0 := by
    intro hzero
    rw [hzero] at hcos
    linarith
  have hcircle : ∀ {x y : ℝ}, x ^ 2 + y ^ 2 = 1 - q.matrix 2 0 ^ 2 →
      (x / Real.cos pitch) ^ 2 + (y / Real.cos pitch) ^ 2 = 1 := by
    intro x y hxy
    rw [div_pow, div_pow, ← add_div, hxy, hcos, div_self hrest.ne']
  obtain ⟨hrow, hcolumn, -⟩ := hq.lengths
  obtain ⟨hcosRoll, hsinRoll⟩ := cos_sin_atan2 (hcircle (x := q.matrix 2 2) (y := q.matrix 2 1)
    (by linarith))
  obtain ⟨hcosYaw, hsinYaw⟩ := cos_sin_atan2 (hcircle (x := q.matrix 0 0) (y := q.matrix 1 0)
    (by linarith))
  rw [toEuler_eq, if_pos h, ← hpitch]
  refine Quaternion.matrix_eq_of_edges (ofEuler_isUnit _ _ _) hq ?_ ?_ ?_ ?_ ?_ hrest.ne'
  all_goals
    rw [matrix_ofEuler]
    simp only [Matrix.of_apply, Matrix.cons_val]
  · rw [hcosYaw, div_mul_cancel₀ _ hne]
  · rw [hsinYaw, div_mul_cancel₀ _ hne]
  · rw [hsin, neg_neg]
  · rw [hsinRoll, mul_div_cancel₀ _ hne]
  · rw [hcosRoll, mul_div_cancel₀ _ hne]

/-- Where the pitch is a right angle, the roll alone is left to choose. -/
theorem matrix_ofEuler_toEuler_of_le (hq : q.IsUnit) (h : ¬|q.matrix 2 0| < 1) :
    (ofEuler (toEuler q).x (toEuler q).y (toEuler q).z).matrix = q.matrix := by
  obtain ⟨hrow, -, htop⟩ := hq.lengths
  have hone : q.matrix 2 0 ^ 2 = 1 := by
    refine le_antisymm (by nlinarith [sq_nonneg (q.matrix 2 1), sq_nonneg (q.matrix 2 2)]) ?_
    exact (one_le_sq_iff_one_le_abs _).2 (not_lt.1 h)
  rw [(hq.edges_of_corner hone).1] at htop
  rw [toEuler_eq, if_neg h]
  -- straight down or straight up, and the yaw is taken for zero
  rcases mul_self_eq_one_iff.1 ((sq _).symm.trans hone) with h20 | h20
  · obtain ⟨hcos, hsin⟩ := cos_sin_atan2 (x := -q.matrix 0 2) (y := q.matrix 0 1) (by linarith)
    rw [if_neg (by rw [h20]; norm_num)]
    refine Quaternion.matrix_eq_of_corner (ofEuler_isUnit _ _ _) hq ?_ ?_ ?_ hone
    all_goals
      rw [matrix_ofEuler]
      simp only [Matrix.of_apply, Matrix.cons_val, Real.sin_neg, Real.cos_neg, Real.sin_pi_div_two,
        Real.cos_zero, Real.sin_zero]
    · rw [hsin]
      ring
    · rw [hcos]
      ring
    · rw [h20, neg_neg]
  · obtain ⟨hcos, hsin⟩ := cos_sin_atan2 (x := q.matrix 0 2) (y := q.matrix 0 1) (by linarith)
    rw [if_pos h20.le]
    refine Quaternion.matrix_eq_of_corner (ofEuler_isUnit _ _ _) hq ?_ ?_ ?_ hone
    all_goals
      rw [matrix_ofEuler]
      simp only [Matrix.of_apply, Matrix.cons_val, Real.sin_pi_div_two, Real.cos_zero, Real.sin_zero]
    · rw [hsin]
      ring
    · rw [hcos]
      ring
    · rw [h20]

/-- **Angles lose nothing** but the sign of the quaternion, also where the pitch is a right angle. -/
theorem sameTurn_ofEuler_toEuler (hq : q.IsUnit) :
    q.SameTurn (ofEuler (toEuler q).x (toEuler q).y (toEuler q).z) := by
  apply Quaternion.sameTurn_of_matrix_eq (ofEuler_isUnit _ _ _) hq
  by_cases h : |q.matrix 2 0| < 1
  · exact matrix_ofEuler_toEuler_of_lt hq h
  · exact matrix_ofEuler_toEuler_of_le hq h

/-! ### Degrees -/

theorem toRadians_toDegrees (x : ℝ) : Scalar.toRadians (Scalar.toDegrees x) = x := by
  have hpi : (Scalar.pi : ℝ) ≠ 0 := Real.pi_ne_zero
  unfold Scalar.toRadians Scalar.toDegrees
  field_simp

theorem sameTurn_ofDegrees_toDegrees (hq : q.IsUnit) : q.SameTurn (ofDegrees (toDegrees q)) := by
  simp only [ofDegrees, toDegrees, Vec3.map, toRadians_toDegrees]
  exact sameTurn_ofEuler_toEuler hq

end Rotation

end PoseFilter
