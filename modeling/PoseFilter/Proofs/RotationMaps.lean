import PoseFilter.Proofs.Exact
import PoseFilter.PoseState

/-!
# Exact rotation maps

The exponential always gives a unit quaternion, through its series as well, so that the orientation
of a state stays a unit whatever is composed with it.  Exponential and logarithm turn opposite
vectors into conjugate quaternions and back; hence the rotation between an orientation and the same
orientation moved along `r` is an odd function of `r`, at any length of `r` and also where it wraps
around half a turn.

* `Rotation.ofVector_isUnit`, `Quaternion.IsUnit.compose` : unit quaternions stay units.
* `Rotation.toVector_ofVector_neg` : opposite rotation vectors come back as opposites.
* `Rotation.toVector_ofVector` : a rotation vector that is resolved comes back unchanged.
-/

namespace PoseFilter

/-! ### Vectors -/

namespace Vec3

variable (a b : Vec3 ℝ) (s : ℝ)

@[simp]
theorem add_x : (a + b).x = a.x + b.x := rfl

@[simp]
theorem add_y : (a + b).y = a.y + b.y := rfl

@[simp]
theorem add_z : (a + b).z = a.z + b.z := rfl

@[simp]
theorem sub_x : (a - b).x = a.x - b.x := rfl

@[simp]
theorem sub_y : (a - b).y = a.y - b.y := rfl

@[simp]
theorem sub_z : (a - b).z = a.z - b.z := rfl

@[simp]
theorem neg_x : (-a).x = -a.x := rfl

@[simp]
theorem neg_y : (-a).y = -a.y := rfl

@[simp]
theorem neg_z : (-a).z = -a.z := rfl

@[simp]
theorem neg_scale : (-a).scale s = -a.scale s := by
  ext <;> simp [scale]

theorem scale_scale (t : ℝ) : (a.scale s).scale t = a.scale (s * t) := by
  ext <;> simp [scale, mul_assoc]

@[simp]
theorem scale_one : a.scale 1 = a := by
  ext <;> simp [scale]

@[simp]
theorem neg_dot_neg : (-a).dot (-a) = a.dot a := by
  simp [dot]

theorem dot_self_scale : (a.scale s).dot (a.scale s) = a.dot a * s ^ 2 := by
  simp only [dot, scale]
  ring

theorem dot_self_nonneg : 0 ≤ a.dot a :=
  add_nonneg (add_nonneg (mul_self_nonneg _) (mul_self_nonneg _)) (mul_self_nonneg _)

end Vec3

/-! ### Unit quaternions -/

namespace Quaternion

/-- Of length one. -/
def IsUnit (q : Quaternion ℝ) : Prop := q.normSq = 1

variable {a b q : Quaternion ℝ}

section Components

variable (a b : Quaternion ℝ)

theorem mul_w : (a * b).w = a.w * b.w - a.x * b.x - a.y * b.y - a.z * b.z := rfl

theorem mul_x : (a * b).x = a.w * b.x + a.x * b.w + a.y * b.z - a.z * b.y := rfl

theorem mul_y : (a * b).y = a.w * b.y - a.x * b.z + a.y * b.w + a.z * b.x := rfl

theorem mul_z : (a * b).z = a.w * b.z + a.x * b.y - a.y * b.x + a.z * b.w := rfl

end Components

protected theorem mul_assoc (a b c : Quaternion ℝ) : a * b * c = a * (b * c) := by
  ext <;> simp only [mul_w, mul_x, mul_y, mul_z] <;> ring

theorem conj_mul (a b : Quaternion ℝ) : (a * b).conj = b.conj * a.conj := by
  ext <;> simp only [conj, mul_w, mul_x, mul_y, mul_z] <;> ring

theorem normSq_mul (a b : Quaternion ℝ) : (a * b).normSq = a.normSq * b.normSq := by
  change (a.w * b.w - a.x * b.x - a.y * b.y - a.z * b.z) *
      (a.w * b.w - a.x * b.x - a.y * b.y - a.z * b.z) +
    (a.w * b.x + a.x * b.w + a.y * b.z - a.z * b.y) *
      (a.w * b.x + a.x * b.w + a.y * b.z - a.z * b.y) +
    (a.w * b.y - a.x * b.z + a.y * b.w + a.z * b.x) *
      (a.w * b.y - a.x * b.z + a.y * b.w + a.z * b.x) +
    (a.w * b.z + a.x * b.y - a.y * b.x + a.z * b.w) *
      (a.w * b.z + a.x * b.y - a.y * b.x + a.z * b.w) = _
  simp only [normSq]
  ring

theorem IsUnit.normalized_eq (h : q.IsUnit) : q.normalized = q := by
  have hs : Scalar.sqrt q.normSq = (1 : ℝ) := by
    rw [h]
    exact Real.sqrt_one
  simp only [normalized, hs, div_one]

theorem IsUnit.normalized_mul (hb : b.IsUnit) (a : Quaternion ℝ) :
    (a * b).normalized = a.normalized * b := by
  have hlength : (a * b).normSq = a.normSq := by rw [normSq_mul, hb, mul_one]
  ext <;> simp only [normalized, hlength, mul_w, mul_x, mul_y, mul_z] <;> ring

theorem IsUnit.mul_normalized (ha : a.IsUnit) (b : Quaternion ℝ) :
    (a * b).normalized = a * b.normalized := by
  have hlength : (a * b).normSq = b.normSq := by rw [normSq_mul, ha, one_mul]
  ext <;> simp only [normalized, hlength, mul_w, mul_x, mul_y, mul_z] <;> ring

theorem isUnit_normalized (h : 0 < q.normSq) : q.normalized.IsUnit := by
  have hs : Real.sqrt q.normSq * Real.sqrt q.normSq = q.normSq := Real.mul_self_sqrt h.le
  change q.w / Real.sqrt q.normSq * (q.w / Real.sqrt q.normSq) +
    q.x / Real.sqrt q.normSq * (q.x / Real.sqrt q.normSq) +
    q.y / Real.sqrt q.normSq * (q.y / Real.sqrt q.normSq) +
    q.z / Real.sqrt q.normSq * (q.z / Real.sqrt q.normSq) = 1
  simp only [div_mul_div_comm, hs, ← add_div]
  exact div_self h.ne'

/-- The orientation after a rotation: the normalization has nothing to do. -/
theorem IsUnit.compose (ha : a.IsUnit) (hb : b.IsUnit) :
    (a * b).normalized = a * b ∧ (a * b).normalized.IsUnit := by
  have hab : (a * b).IsUnit := by rw [IsUnit, normSq_mul, ha, hb, mul_one]
  rw [hab.normalized_eq]
  exact ⟨rfl, hab⟩

theorem IsUnit.mul_mul_conj (hb : b.IsUnit) (a : Quaternion ℝ) : a * b * b.conj = a := by
  have h : b.w * b.w + b.x * b.x + b.y * b.y + b.z * b.z = 1 := hb
  ext
  · change (a.w * b.w - a.x * b.x - a.y * b.y - a.z * b.z) * b.w -
      (a.w * b.x + a.x * b.w + a.y * b.z - a.z * b.y) * -b.x -
      (a.w * b.y - a.x * b.z + a.y * b.w + a.z * b.x) * -b.y -
      (a.w * b.z + a.x * b.y - a.y * b.x + a.z * b.w) * -b.z = a.w
    linear_combination a.w * h
  · change (a.w * b.w - a.x * b.x - a.y * b.y - a.z * b.z) * -b.x +
      (a.w * b.x + a.x * b.w + a.y * b.z - a.z * b.y) * b.w +
      (a.w * b.y - a.x * b.z + a.y * b.w + a.z * b.x) * -b.z -
      (a.w * b.z + a.x * b.y - a.y * b.x + a.z * b.w) * -b.y = a.x
    linear_combination a.x * h
  · change (a.w * b.w - a.x * b.x - a.y * b.y - a.z * b.z) * -b.y -
      (a.w * b.x + a.x * b.w + a.y * b.z - a.z * b.y) * -b.z +
      (a.w * b.y - a.x * b.z + a.y * b.w + a.z * b.x) * b.w +
      (a.w * b.z + a.x * b.y - a.y * b.x + a.z * b.w) * -b.x = a.y
    linear_combination a.y * h
  · change (a.w * b.w - a.x * b.x - a.y * b.y - a.z * b.z) * -b.z +
      (a.w * b.x + a.x * b.w + a.y * b.z - a.z * b.y) * -b.y -
      (a.w * b.y - a.x * b.z + a.y * b.w + a.z * b.x) * -b.x +
      (a.w * b.z + a.x * b.y - a.y * b.x + a.z * b.w) * b.w = a.z
    linear_combination a.z * h

theorem imag_mul_conj_self (q : Quaternion ℝ) : (q * q.conj).imag = Vec3.zero := by
  ext
  · change q.w * -q.x + q.x * q.w + q.y * -q.z - q.z * -q.y = 0
    ring
  · change q.w * -q.y - q.x * -q.z + q.y * q.w + q.z * -q.x = 0
    ring
  · change q.w * -q.z + q.x * -q.y - q.y * -q.x + q.z * q.w = 0
    ring

@[simp]
theorem conj_w (q : Quaternion ℝ) : q.conj.w = q.w := rfl

@[simp]
theorem imag_conj (q : Quaternion ℝ) : q.conj.imag = -q.imag := rfl

@[simp]
theorem imag_neg (q : Quaternion ℝ) : (-q).imag = -q.imag := rfl

@[simp]
theorem conj_conj (q : Quaternion ℝ) : q.conj.conj = q := by
  ext <;> simp only [conj, neg_neg]

theorem neg_conj (q : Quaternion ℝ) : -q.conj = (-q).conj := rfl

theorem normSq_conj (q : Quaternion ℝ) : q.conj.normSq = q.normSq := by
  simp [normSq, conj]

theorem IsUnit.conj_mul_mul (ha : a.IsUnit) (b : Quaternion ℝ) : a.conj * (a * b) = b := by
  have hconj : a.conj.IsUnit := by rw [IsUnit, normSq_conj, ha]
  -- the law for a factor on the right, conjugated
  have hright := congrArg conj (hconj.mul_mul_conj b.conj)
  simpa only [conj_mul, conj_conj] using hright

theorem normalized_conj (q : Quaternion ℝ) : q.conj.normalized = q.normalized.conj := by
  have h : Scalar.sqrt q.conj.normSq = Scalar.sqrt q.normSq := by rw [normSq_conj]
  simp only [normalized, h]
  simp only [conj, neg_div]

end Quaternion

namespace Rotation

/-! ### The exponential -/

theorem normSq_ofParts (w : ℝ) (v : Vec3 ℝ) :
    (Quaternion.ofParts w v).normSq = w ^ 2 + v.dot v := by
  simp only [Quaternion.normSq, Quaternion.ofParts, Vec3.dot]
  ring

theorem dot_self_scale_sin_div {v : Vec3 ℝ} {θ : ℝ} (h : v.dot v = θ ^ 2) (hθ : 0 < θ) :
    (v.scale (Real.sin θ / θ)).dot (v.scale (Real.sin θ / θ)) = Real.sin θ ^ 2 := by
  rw [Vec3.dot_self_scale, h, div_pow, mul_div_cancel₀ _ (pow_pos hθ 2).ne']

theorem sinc_of_lt {θ : ℝ} (h : θ < 1e-13) : sinc θ = 1 - θ ^ 2 / 6 := by
  have hseries : sinc θ = 1 - θ * θ / 6.0 := if_pos h
  rw [hseries]
  norm_num [sq]

theorem sinc_of_le {θ : ℝ} (h : 1e-13 ≤ θ) : sinc θ = Real.sin θ / θ := if_neg (not_lt.2 h)

theorem exp_of_cutoff_le {v : Vec3 ℝ} (h : (1e-13 : ℝ) ≤ Real.sqrt (v.dot v)) :
    exp v = Quaternion.ofParts (Real.cos (Real.sqrt (v.dot v)))
        (v.scale (Real.sin (Real.sqrt (v.dot v)) / Real.sqrt (v.dot v))) ∧
      (exp v).IsUnit := by
  have hpos : 0 < Real.sqrt (v.dot v) := lt_of_lt_of_le (by norm_num) h
  have hunit : (Quaternion.ofParts (Real.cos (Real.sqrt (v.dot v)))
      (v.scale (Real.sin (Real.sqrt (v.dot v)) / Real.sqrt (v.dot v)))).IsUnit := by
    rw [Quaternion.IsUnit, normSq_ofParts,
      dot_self_scale_sin_div (Real.sq_sqrt v.dot_self_nonneg).symm hpos, Real.cos_sq_add_sin_sq]
  have hexp : exp v = Quaternion.ofParts (Real.cos (Real.sqrt (v.dot v)))
      (v.scale (Real.sin (Real.sqrt (v.dot v)) / Real.sqrt (v.dot v))) := by
    rw [← hunit.normalized_eq, ← sinc_of_le h]
    rfl
  exact ⟨hexp, hexp ▸ hunit⟩

/-- The exponential is a unit quaternion: below the cutoff the cosine keeps it away from zero before
it is normalized. -/
theorem exp_isUnit (v : Vec3 ℝ) : (exp v).IsUnit := by
  by_cases h : (1e-13 : ℝ) ≤ Real.sqrt (v.dot v)
  · exact (exp_of_cutoff_le h).2
  · have hlt : Real.sqrt (v.dot v) < 1 := (not_le.1 h).trans (by norm_num)
    have hpi := Real.pi_gt_three
    have hcos : 0 < Real.cos (Real.sqrt (v.dot v)) := by
      apply Real.cos_pos_of_mem_Ioo
      constructor <;> linarith [Real.sqrt_nonneg (v.dot v)]
    refine Quaternion.isUnit_normalized ?_
    rw [normSq_ofParts]
    exact add_pos_of_pos_of_nonneg (pow_pos hcos 2) (Vec3.dot_self_nonneg _)

theorem ofVector_isUnit (r : Vec3 ℝ) : (ofVector r).IsUnit := exp_isUnit _

theorem isUnit_turned {q : Quaternion ℝ} (hq : q.IsUnit) (r : Vec3 ℝ) :
    (ofVector r * q).normalized.IsUnit :=
  ((ofVector_isUnit r).compose hq).2

theorem exp_neg (v : Vec3 ℝ) : exp (-v) = (exp v).conj := by
  have hparts : ∀ (w : ℝ) (u : Vec3 ℝ), Quaternion.ofParts w (-u) = (Quaternion.ofParts w u).conj :=
    fun _ _ => rfl
  simp only [exp, Vec3.neg_dot_neg, Vec3.neg_scale, hparts, Quaternion.normalized_conj]

theorem ofVector_neg (r : Vec3 ℝ) : ofVector (-r) = (ofVector r).conj := by
  rw [ofVector, Vec3.neg_scale, exp_neg, ofVector]

/-! ### The logarithm -/

theorem ln_conj (q : Quaternion ℝ) : ln q.conj = -ln q := by
  simp only [ln, Quaternion.imag_conj, Vec3.neg_dot_neg, Quaternion.conj_w, Vec3.neg_scale]

/-- Which way round is the short one depends on the scalar part only, also at half a turn. -/
theorem toVector_conj (q : Quaternion ℝ) : toVector q.conj = -toVector q := by
  have hshort : shortLn q.conj = -shortLn q := by
    simp only [shortLn, Quaternion.conj_w, Quaternion.neg_conj, ln_conj]
    split_ifs <;> rfl
  rw [toVector, hshort, Vec3.neg_scale, toVector]

/-- **Opposite rotation vectors come back as opposites**, whatever their length. -/
theorem toVector_ofVector_neg (r : Vec3 ℝ) :
    toVector (ofVector (-r)) = -toVector (ofVector r) := by
  rw [ofVector_neg, toVector_conj]

theorem ln_of_imag_eq_zero {q : Quaternion ℝ} (h : q.imag = Vec3.zero) : ln q = Vec3.zero := by
  rw [ln, h]
  ext <;> exact zero_mul _

theorem toVector_of_imag_eq_zero {q : Quaternion ℝ} (h : q.imag = Vec3.zero) :
    toVector q = Vec3.zero := by
  have hneg : (-q).imag = Vec3.zero := by
    rw [Quaternion.imag_neg, h]
    ext <;> exact neg_zero
  have hshort : shortLn q = Vec3.zero := by
    rw [shortLn, ln_of_imag_eq_zero h, ln_of_imag_eq_zero hneg, ite_self]
  rw [toVector, hshort]
  ext <;> exact zero_mul _

theorem difference_self (q : Quaternion ℝ) : difference q q = Vec3.zero :=
  toVector_of_imag_eq_zero (Quaternion.imag_mul_conj_self q)

theorem difference_compose {q : Quaternion ℝ} (hq : q.IsUnit) (r : Vec3 ℝ) :
    difference (ofVector r * q).normalized q = toVector (ofVector r) := by
  rw [((ofVector_isUnit r).compose hq).1, difference, hq.mul_mul_conj]

/-! ### The way there and back -/

theorem atan2_sin_cos {θ : ℝ} (h₁ : -Real.pi < θ) (h₂ : θ ≤ Real.pi) :
    Scalar.atan2 (Real.sin θ) (Real.cos θ) = θ := by
  have hz : (⟨Real.cos θ, Real.sin θ⟩ : ℂ) = Complex.cos θ + Complex.sin θ * Complex.I := by
    apply Complex.ext <;> simp [Complex.cos_ofReal_re, Complex.sin_ofReal_re]
  change Complex.arg ⟨Real.cos θ, Real.sin θ⟩ = θ
  rw [hz, Complex.arg_cos_add_sin_mul_I ⟨h₁, h₂⟩]

theorem logFactor_sin_cos {θ : ℝ} (h : (1e-4 : ℝ) ≤ Real.sin θ) (h₁ : -Real.pi < θ)
    (h₂ : θ ≤ Real.pi) : logFactor (Real.sin θ) (Real.cos θ) = θ / Real.sin θ := by
  rw [logFactor, atan2_sin_cos h₁ h₂]
  exact if_neg (not_lt.2 h)

theorem logFactor_of_lt {θ : ℝ} (h : Real.sin θ < 1e-4) (h₁ : -Real.pi < θ) (h₂ : θ ≤ Real.pi) :
    logFactor (Real.sin θ) (Real.cos θ) = cscSeries θ := by
  rw [logFactor, atan2_sin_cos h₁ h₂]
  exact if_pos h

theorem ln_exp {v : Vec3 ℝ} (hpi : Real.sqrt (v.dot v) < Real.pi)
    (hsin : (1e-4 : ℝ) ≤ Real.sin (Real.sqrt (v.dot v))) : ln (exp v) = v := by
  have hsin0 : 0 < Real.sin (Real.sqrt (v.dot v)) := lt_of_lt_of_le (by norm_num) hsin
  have hθ : 0 < Real.sqrt (v.dot v) := by
    refine lt_of_le_of_ne (Real.sqrt_nonneg _) fun h0 => ?_
    rw [← h0, Real.sin_zero] at hsin0
    exact lt_irrefl _ hsin0
  -- the cutoff of the exponential is far below that of the logarithm
  have hcut : (1e-13 : ℝ) ≤ Real.sqrt (v.dot v) :=
    le_trans (by norm_num) (hsin.trans (Real.sin_le hθ.le))
  have himag := dot_self_scale_sin_div (Real.sq_sqrt v.dot_self_nonneg).symm hθ
  rw [(exp_of_cutoff_le hcut).1]
  set θ := Real.sqrt (v.dot v)
  have hsqrt : Scalar.sqrt ((v.scale (Real.sin θ / θ)).dot (v.scale (Real.sin θ / θ))) =
      Real.sin θ := by
    rw [himag]
    exact Real.sqrt_sq hsin0.le
  have hcancel : Real.sin θ / θ * (θ / Real.sin θ) = 1 := by
    field_simp
  change (v.scale (Real.sin θ / θ)).scale (logFactor (Scalar.sqrt
    ((v.scale (Real.sin θ / θ)).dot (v.scale (Real.sin θ / θ)))) (Real.cos θ)) = v
  rw [hsqrt, logFactor_sin_cos hsin (by linarith [Real.pi_pos]) hpi.le, Vec3.scale_scale, hcancel,
    Vec3.scale_one]

/-- A rotation vector that both maps carry exactly: zero, or shorter than half a turn and so long that
the logarithm does not take its series. -/
def Resolved (r : Vec3 ℝ) : Prop :=
  r = Vec3.zero ∨ r.norm < Real.pi ∧ 1e-4 ≤ Real.sin (r.norm / 2)

theorem norm_half (r : Vec3 ℝ) :
    Real.sqrt ((r.scale 0.5).dot (r.scale 0.5)) = r.norm / 2 := by
  rw [Vec3.dot_self_scale, Real.sqrt_mul r.dot_self_nonneg, Real.sqrt_sq (by norm_num)]
  change Real.sqrt (r.dot r) * _ = Real.sqrt (r.dot r) / 2
  norm_num
  ring

/-- **A resolved rotation vector comes back unchanged.** -/
theorem toVector_ofVector {r : Vec3 ℝ} (h : Resolved r) : toVector (ofVector r) = r := by
  rcases h with rfl | ⟨hpi, hsin⟩
  · refine toVector_of_imag_eq_zero ?_
    have hzero : ∀ s : ℝ, (Vec3.zero : Vec3 ℝ).scale s = Vec3.zero := fun s => by
      ext <;> exact zero_mul _
    simp only [ofVector, exp, hzero, Quaternion.normalized, Quaternion.imag, Quaternion.ofParts]
    ext <;> exact zero_div _
  · rw [← norm_half] at hsin
    have hθ : Real.sqrt ((r.scale 0.5).dot (r.scale 0.5)) < Real.pi / 2 := by
      rw [norm_half]
      linarith
    have hln := ln_exp (hθ.trans (by linarith [Real.pi_pos])) hsin
    have hcut : (1e-13 : ℝ) ≤ Real.sqrt ((r.scale 0.5).dot (r.scale 0.5)) :=
      le_trans (by norm_num) (hsin.trans (Real.sin_le (Real.sqrt_nonneg _)))
    -- less than half a turn: the scalar part is positive, and this is the short way
    have hw : ¬(ofVector r).w < 0 := by
      rw [ofVector, (exp_of_cutoff_le hcut).1]
      exact not_lt.2 (Real.cos_pos_of_mem_Ioo
        ⟨by linarith [Real.pi_pos, Real.sqrt_nonneg ((r.scale 0.5).dot (r.scale 0.5))], hθ⟩).le
    rw [toVector, shortLn, if_neg hw, ofVector, hln, Vec3.scale_scale]
    norm_num

end Rotation

end PoseFilter
