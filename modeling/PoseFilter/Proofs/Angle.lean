import PoseFilter.Proofs.RoundTrip
import PoseFilter.Simulation.ErrorStats

/-!
# The angle between two orientations

The angle is computed from a quotient, a choice of the short way round, an arc tangent and a series.  All
of it comes to one function of one number, the magnitude of the inner product of the two quaternions
(`Rotation.angle_eq`): with `|⟨a, b⟩| = cos φ` the angle is twice the length of the logarithm of a turn
with the angle `φ` (`Rotation.logLength`).  So whatever leaves the inner product alone up to its sign
leaves the angle alone: a swap, the signs of the quaternions, a change of the frame on either side, in
every combination of the branches.

* `Quaternion.inner_mul_left`, `Quaternion.inner_mul_right` : unit factors leave the inner product alone.
* `Quaternion.abs_inner_eq_one_iff` : it has the magnitude one exactly for the same turn.
* `Rotation.angle_measures_turns` : the angle is that of the rotation between the two, as is the error that
  poses are compared by.
-/

namespace PoseFilter

namespace Quaternion

variable {a b g : Quaternion ℝ}

/-! ### The inner product -/

/-- The inner product of the components. -/
noncomputable def inner (a b : Quaternion ℝ) : ℝ := a.w * b.w + a.x * b.x + a.y * b.y + a.z * b.z

theorem mul_conj_w (a b : Quaternion ℝ) : (a * b.conj).w = a.inner b := by
  change a.w * b.w - a.x * -b.x - a.y * -b.y - a.z * -b.z = _
  rw [inner]
  ring

theorem inner_comm (a b : Quaternion ℝ) : a.inner b = b.inner a := by
  simp only [inner]
  ring

theorem inner_neg_left (a b : Quaternion ℝ) : (-a).inner b = -a.inner b := by
  simp only [inner, neg_w, neg_x, neg_y, neg_z]
  ring

theorem inner_neg_right (a b : Quaternion ℝ) : a.inner (-b) = -a.inner b := by
  rw [inner_comm, inner_neg_left, inner_comm]

theorem inner_self (a : Quaternion ℝ) : a.inner a = a.normSq := rfl

theorem inner_mul_left (hg : g.IsUnit) (a b : Quaternion ℝ) : (g * a).inner (g * b) = a.inner b := by
  have hexpand : (g * a).inner (g * b) = g.normSq * a.inner b := by
    simp only [inner, normSq, mul_w, mul_x, mul_y, mul_z]
    ring
  rw [hexpand, hg, one_mul]

theorem inner_mul_right (hg : g.IsUnit) (a b : Quaternion ℝ) : (a * g).inner (b * g) = a.inner b := by
  have hexpand : (a * g).inner (b * g) = g.normSq * a.inner b := by
    simp only [inner, normSq, mul_w, mul_x, mul_y, mul_z]
    ring
  rw [hexpand, hg, one_mul]

/-- Unit quaternions with the inner product one are equal: their distance is zero. -/
theorem IsUnit.eq_of_inner_eq_one (ha : a.IsUnit) (hb : b.IsUnit) (h : a.inner b = 1) : a = b := by
  have hdistance : (a.w - b.w) ^ 2 + (a.x - b.x) ^ 2 + (a.y - b.y) ^ 2 + (a.z - b.z) ^ 2 = 0 := by
    have ha' : a.w * a.w + a.x * a.x + a.y * a.y + a.z * a.z = 1 := ha
    have hb' : b.w * b.w + b.x * b.x + b.y * b.y + b.z * b.z = 1 := hb
    rw [inner] at h
    linear_combination ha' + hb' - 2 * h
  have hw := sq_nonneg (a.w - b.w)
  have hx := sq_nonneg (a.x - b.x)
  have hy := sq_nonneg (a.y - b.y)
  have hz := sq_nonneg (a.z - b.z)
  ext
  · exact sub_eq_zero.1 (pow_eq_zero_iff two_ne_zero |>.1 (by linarith))
  · exact sub_eq_zero.1 (pow_eq_zero_iff two_ne_zero |>.1 (by linarith))
  · exact sub_eq_zero.1 (pow_eq_zero_iff two_ne_zero |>.1 (by linarith))
  · exact sub_eq_zero.1 (pow_eq_zero_iff two_ne_zero |>.1 (by linarith))

/-- **The same turn** is an inner product of magnitude one. -/
theorem abs_inner_eq_one_iff (ha : a.IsUnit) (hb : b.IsUnit) : |a.inner b| = 1 ↔ b.SameTurn a := by
  constructor
  · intro h
    rcases (abs_eq zero_le_one).1 h with hone | hneg
    · exact .inl (ha.eq_of_inner_eq_one hb hone)
    · exact .inr (ha.eq_of_inner_eq_one (isUnit_neg hb) (by rw [inner_neg_right, hneg, neg_neg]))
  · rintro (rfl | rfl)
    · rw [inner_self, ha, abs_one]
    · rw [inner_neg_left, abs_neg, inner_self, hb, abs_one]

end Quaternion

namespace Rotation

open PoseFilter.Quaternion

variable {a b g h q : Quaternion ℝ} {φ : ℝ}

/-! ### The angle as a function of the inner product -/

/-- The length of the logarithm of a unit quaternion with the angle `φ`. -/
noncomputable def logLength (φ : ℝ) : ℝ := Real.sin φ * logFactor (Real.sin φ) (Real.cos φ)

theorem sin_le_logLength (h₀ : 0 ≤ φ) (h₁ : φ ≤ Real.pi / 2) : Real.sin φ ≤ logLength φ := by
  have hpi := Real.pi_pos
  by_cases hcut : (1e-4 : ℝ) ≤ Real.sin φ
  · have hsin : Real.sin φ ≠ 0 := (lt_of_lt_of_le (by norm_num) hcut).ne'
    rw [logLength, logFactor_sin_cos hcut (by linarith) (by linarith), mul_div_cancel₀ _ hsin]
    exact Real.sin_le h₀
  · have hseries := logFactor_of_lt (not_le.1 hcut) (by linarith) (by linarith)
    have hsmall : φ ≤ 1 := by
      have hdouble := le_two_mul_sin h₀ h₁
      norm_num at hcut
      linarith
    rw [logLength, hseries]
    exact le_mul_of_one_le_right (Real.sin_nonneg_of_nonneg_of_le_pi h₀ (by linarith))
      (cscSeries_mem (pow_le_one₀ h₀ hsmall)).1

theorem logLength_eq_zero_iff (h₀ : 0 ≤ φ) (h₁ : φ ≤ Real.pi / 2) : logLength φ = 0 ↔ φ = 0 := by
  constructor
  · intro hzero
    have hsin := sin_le_logLength h₀ h₁
    have hdouble := le_two_mul_sin h₀ h₁
    linarith
  · rintro rfl
    rw [logLength, Real.sin_zero, zero_mul]

theorem arccos_abs_mem (x : ℝ) : 0 ≤ Real.arccos |x| ∧ Real.arccos |x| ≤ Real.pi / 2 :=
  ⟨Real.arccos_nonneg _, Real.arccos_le_pi_div_two.2 (abs_nonneg x)⟩

theorem shortWay_w (q : Quaternion ℝ) : (shortWay q).w = |q.w| := by
  unfold shortWay
  split_ifs with hw
  · exact (abs_of_nonneg hw).symm
  · exact (abs_of_neg (not_le.1 hw)).symm

/-- The length of a rotation vector depends on the scalar part only, and not on its sign. -/
theorem norm_toVector (hq : q.IsUnit) :
    (toVector q).norm = 2 * logLength (Real.arccos |q.w|) := by
  obtain ⟨φ, hφ, hsame⟩ := exists_shortWay_turns hq
  have hangle : Real.arccos |q.w| = φ := by
    rw [← shortWay_w, hφ.w_eq, Real.arccos_cos hφ.nonneg (by linarith [hφ.le_right, Real.pi_pos])]
  rw [hsame, toVector_of_turns hφ, Vec3.norm_scale, norm_ln_of_turns hφ, abs_two, hangle, logLength,
    mul_comm]

/-- **The angle depends on the magnitude of the inner product only.** -/
theorem angle_eq (ha : a.IsUnit) (hb : b.IsUnit) :
    angle a b = 2 * logLength (Real.arccos |a.inner b|) := by
  rw [angle, difference, norm_toVector (ha.mul_conj hb), mul_conj_w]

theorem angle_congr {a' b' : Quaternion ℝ} (ha : a.IsUnit) (hb : b.IsUnit) (ha' : a'.IsUnit)
    (hb' : b'.IsUnit) (hinner : |a'.inner b'| = |a.inner b|) : angle a' b' = angle a b := by
  rw [angle_eq ha' hb', hinner, angle_eq ha hb]

/-! ### What follows -/

theorem angle_mem (ha : a.IsUnit) (hb : b.IsUnit) : 0 ≤ angle a b ∧ angle a b ≤ Real.pi := by
  obtain ⟨h₀, h₁⟩ := arccos_abs_mem (a.inner b)
  obtain ⟨-, hnonneg, hle⟩ := logFactor_mul_sin h₀ h₁
  rw [angle_eq ha hb, logLength]
  constructor <;> linarith

theorem abs_angle_sub_arccos_le (ha : a.IsUnit) (hb : b.IsUnit) :
    |angle a b - 2 * Real.arccos (|a.inner b|)| ≤ 1e-9 := by
  obtain ⟨h₀, h₁⟩ := arccos_abs_mem (a.inner b)
  have hnear := (logFactor_mul_sin h₀ h₁).1
  rw [angle_eq ha hb, logLength, ← mul_sub, abs_mul, abs_two]
  calc 2 * _ ≤ 2 * 1e-11 := mul_le_mul_of_nonneg_left hnear two_pos.le
    _ ≤ 1e-9 := by norm_num

theorem angle_eq_zero_iff (ha : a.IsUnit) (hb : b.IsUnit) : angle a b = 0 ↔ a = b ∨ a = -b := by
  obtain ⟨h₀, h₁⟩ := arccos_abs_mem (a.inner b)
  have hle : |a.inner b| ≤ 1 := by
    have hunit := ha.mul_conj hb
    rw [← mul_conj_w, ← sq_le_one_iff_abs_le_one]
    rw [Quaternion.IsUnit, ← ofParts_imag (a * b.conj), normSq_ofParts] at hunit
    linarith [(a * b.conj).imag.dot_self_nonneg]
  rw [angle_eq ha hb, mul_eq_zero, or_iff_right two_ne_zero, logLength_eq_zero_iff h₀ h₁,
    Real.arccos_eq_zero]
  exact (LE.le.ge_iff_eq' hle).trans (eq_comm.trans (abs_inner_eq_one_iff ha hb))

theorem angle_of_sameTurn {a' b' : Quaternion ℝ} (ha : a.IsUnit) (hb : b.IsUnit) (hturn : a.SameTurn a')
    (hturn' : b.SameTurn b') : angle a' b' = angle a b := by
  have hunit : ∀ {q q' : Quaternion ℝ}, q.IsUnit → q.SameTurn q' → q'.IsUnit := by
    rintro q q' hq (rfl | rfl)
    · exact hq
    · exact isUnit_neg hq
  refine angle_congr ha hb (hunit ha hturn) (hunit hb hturn') ?_
  rcases hturn with rfl | rfl <;> rcases hturn' with rfl | rfl <;>
    simp only [inner_neg_left, inner_neg_right, abs_neg]

theorem angle_comm (ha : a.IsUnit) (hb : b.IsUnit) : angle b a = angle a b :=
  angle_congr ha hb hb ha (by rw [inner_comm])

theorem angle_mul_mul (ha : a.IsUnit) (hb : b.IsUnit) (hg : g.IsUnit) (hh : h.IsUnit) :
    angle (g * a * h) (g * b * h) = angle a b := by
  have hunit : ∀ {q : Quaternion ℝ}, q.IsUnit → (g * q * h).IsUnit := by
    intro q hq
    rw [Quaternion.IsUnit, normSq_mul, normSq_mul, hg, hq, hh, one_mul, one_mul]
  exact angle_congr ha hb (hunit ha) (hunit hb) (by rw [inner_mul_right hh, inner_mul_left hg])

end Rotation

/-! ### The error of an estimate -/

namespace PoseError

variable {truth estimate : Pose ℝ}

theorem attitudeDeg_mem (ht : truth.orientation.IsUnit) (he : estimate.orientation.IsUnit) :
    0 ≤ (between truth estimate).attitudeDeg ∧ (between truth estimate).attitudeDeg ≤ 180 := by
  obtain ⟨hnonneg, hle⟩ := Rotation.angle_mem ht he
  have hpi := Real.pi_pos
  have hdegrees : (between truth estimate).attitudeDeg =
      Rotation.angle truth.orientation estimate.orientation * (180 / Real.pi) := by
    change _ * ((180.0 : ℝ) / Real.pi) = _
    norm_num
  rw [hdegrees]
  constructor
  · positivity
  · calc _ ≤ Real.pi * (180 / Real.pi) := by gcongr
      _ = 180 := mul_div_cancel₀ _ hpi.ne'

theorem position_nonneg (truth estimate : Pose ℝ) : 0 ≤ (between truth estimate).position :=
  Real.sqrt_nonneg _

theorem between_comm (ht : truth.orientation.IsUnit) (he : estimate.orientation.IsUnit) :
    between estimate truth = between truth estimate := by
  have hopposite : estimate.position - truth.position = -(truth.position - estimate.position) := by
    ext <;> exact (neg_sub _ _).symm
  have hposition : (estimate.position - truth.position).norm =
      (truth.position - estimate.position).norm := by
    rw [hopposite, Vec3.norm_neg]
  rw [between, between, hposition, Rotation.angle_comm ht he]

theorem attitudeDeg_of_sameTurn {truth' estimate' : Pose ℝ} (ht : truth.orientation.IsUnit)
    (he : estimate.orientation.IsUnit) (hturn : truth.orientation.SameTurn truth'.orientation)
    (hturn' : estimate.orientation.SameTurn estimate'.orientation) :
    (between truth' estimate').attitudeDeg = (between truth estimate).attitudeDeg :=
  congrArg Scalar.toDegrees (Rotation.angle_of_sameTurn ht he hturn hturn')

end PoseError

namespace Rotation

open PoseFilter.Quaternion

/-- **The angle between two orientations is a distance between rotations.**  It lies in `[0, π]`, is the
same for both orders, for either sign of either quaternion and in every frame, is zero exactly for the
same rotation, and is twice the arc cosine of `|⟨a, b⟩|` up to `1e-9`.  Hence the attitude error of an
estimate lies between 0 and 180 degrees, and does not depend on which pose is called the truth or on the
signs that stand for the two orientations. -/
theorem angle_measures_turns :
    (∀ a b g h : Quaternion ℝ, a.IsUnit → b.IsUnit → g.IsUnit → h.IsUnit →
      (0 ≤ angle a b ∧ angle a b ≤ Real.pi) ∧ angle b a = angle a b ∧
      (angle (-a) b = angle a b ∧ angle a (-b) = angle a b) ∧
      angle (g * a * h) (g * b * h) = angle a b ∧
      (angle a b = 0 ↔ a = b ∨ a = -b) ∧
      |angle a b - 2 * Real.arccos (|a.inner b|)| ≤ 1e-9) ∧
    ∀ truth estimate : Pose ℝ, truth.orientation.IsUnit → estimate.orientation.IsUnit →
      (0 ≤ (PoseError.between truth estimate).attitudeDeg ∧
        (PoseError.between truth estimate).attitudeDeg ≤ 180) ∧
      PoseError.between estimate truth = PoseError.between truth estimate ∧
      ∀ truth' estimate' : Pose ℝ, truth.orientation.SameTurn truth'.orientation →
        estimate.orientation.SameTurn estimate'.orientation →
        (PoseError.between truth' estimate').attitudeDeg =
          (PoseError.between truth estimate).attitudeDeg := by
  constructor
  · intro a b g h ha hb hg hh
    exact ⟨angle_mem ha hb, angle_comm ha hb,
      ⟨angle_of_sameTurn ha hb (.inr rfl) (.inl rfl), angle_of_sameTurn ha hb (.inl rfl) (.inr rfl)⟩,
      angle_mul_mul ha hb hg hh, angle_eq_zero_iff ha hb, abs_angle_sub_arccos_le ha hb⟩
  · intro truth estimate ht he
    exact ⟨PoseError.attitudeDeg_mem ht he, PoseError.between_comm ht he,
      fun truth' estimate' hturn hturn' => PoseError.attitudeDeg_of_sameTurn ht he hturn hturn'⟩

/-- Half a turn, where neither way round is the short one. -/
theorem angle_measures_turns_half_turn :
    let a : Quaternion ℝ := ⟨0, 1, 0, 0⟩
    let g : Quaternion ℝ := ⟨0.6, 0, 0.8, 0⟩
    (a.IsUnit ∧ (identity : Quaternion ℝ).IsUnit ∧ g.IsUnit) ∧
      |angle a identity - Real.pi| ≤ 1e-9 ∧ angle (-a) identity = angle a identity ∧
      angle (g * a * g) (g * identity * g) = angle a identity ∧
      (PoseError.between ⟨Vec3.zero, a⟩ ⟨Vec3.zero, identity⟩).attitudeDeg ≤ 180 := by
  intro a g
  have ha : a.IsUnit := by simp [a, Quaternion.IsUnit, normSq]
  have hg : g.IsUnit := by
    norm_num [g, Quaternion.IsUnit, normSq]
  obtain ⟨hangles, hposes⟩ := angle_measures_turns
  obtain ⟨-, -, ⟨hneg, -⟩, hframe, -, hnear⟩ := hangles a identity g g ha isUnit_identity hg hg
  have hright : a.inner identity = 0 := by simp [a, Quaternion.inner, identity]
  rw [hright, abs_zero, Real.arccos_zero, mul_div_cancel₀ _ two_ne_zero] at hnear
  exact ⟨⟨ha, isUnit_identity, hg⟩, hnear, hneg, hframe,
    (hposes ⟨Vec3.zero, a⟩ ⟨Vec3.zero, identity⟩ ha isUnit_identity).1.2⟩

end Rotation

end PoseFilter
