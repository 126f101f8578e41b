import PoseFilter.Proofs.DoubleCover

/-!
# The rotation maps undo one another

Through all their branches the exponential and the logarithm are inverse up to `1e-9`.  What carries
every case is the angle: a unit quaternion `q` with a scalar part that is not negative has an angle `φ` of
at most `π / 2` with scalar part `cos φ` and a vector part of length `sin φ` (`Quaternion.Turns`).  In
terms of it

* the logarithm has the length `φ`, exactly or, where it takes its series, up to `1e-11`
  (`Rotation.logFactor_mul_sin`);
* the exponential of `v` has the angle `|v|`, exactly or, where it takes its series, up to `1e-12`
  (`Rotation.exists_exp_eq`);
* both leave the axis alone, so vectors differ by the error of their lengths, and quaternions by no more
  than that of their angles (`Quaternion.distance_ofParts_le`).

`Rotation.maps_inverse` collects the ways there and back, from vectors, from quaternions and from the
rotation between two orientations.
-/

namespace PoseFilter

namespace Quaternion

variable {a b q : Quaternion ℝ} {φ ψ : ℝ}

theorem IsUnit.mul_conj (ha : a.IsUnit) (hb : b.IsUnit) : (a * b.conj).IsUnit := by
  rw [IsUnit, normSq_mul, normSq_conj, ha, hb, one_mul]

/-! ### The distance of quaternions -/

/-- The Euclidean distance of two quaternions. -/
noncomputable def distance (p q : Quaternion ℝ) : ℝ :=
  Real.sqrt (normSq ⟨p.w - q.w, p.x - q.x, p.y - q.y, p.z - q.z⟩)

theorem IsUnit.distance_mul (hb : b.IsUnit) (p q : Quaternion ℝ) :
    distance (p * b) (q * b) = distance p q := by
  have hfactor : (⟨(p * b).w - (q * b).w, (p * b).x - (q * b).x, (p * b).y - (q * b).y,
      (p * b).z - (q * b).z⟩ : Quaternion ℝ) =
        ⟨p.w - q.w, p.x - q.x, p.y - q.y, p.z - q.z⟩ * b := by
    ext <;> simp only [mul_w, mul_x, mul_y, mul_z] <;> ring
  rw [distance, hfactor, normSq_mul, hb, mul_one, distance]

theorem distance_ofParts_le {v : Vec3 ℝ} {s t : ℝ} (hs : v.norm * s = Real.sin φ)
    (ht : v.norm * t = Real.sin ψ) :
    distance (ofParts (Real.cos φ) (v.scale s)) (ofParts (Real.cos ψ) (v.scale t)) ≤ |φ - ψ| := by
  have hsquare : normSq ⟨Real.cos φ - Real.cos ψ, v.x * s - v.x * t, v.y * s - v.y * t,
      v.z * s - v.z * t⟩ = 2 - 2 * Real.cos (φ - ψ) := by
    have hdot : v.x * v.x + v.y * v.y + v.z * v.z = v.norm ^ 2 := v.sq_norm.symm
    have hvector : v.norm ^ 2 * (s - t) ^ 2 = (Real.sin φ - Real.sin ψ) ^ 2 := by
      rw [← hs, ← ht]
      ring
    rw [Real.cos_sub, normSq]
    linear_combination (s - t) ^ 2 * hdot + hvector + Real.sin_sq_add_cos_sq φ +
      Real.sin_sq_add_cos_sq ψ
  have hcos := Real.one_sub_sq_div_two_le_cos (x := φ - ψ)
  rw [← Real.sqrt_sq_eq_abs]
  refine Real.sqrt_le_sqrt ?_
  change normSq ⟨Real.cos φ - Real.cos ψ, v.x * s - v.x * t, v.y * s - v.y * t,
    v.z * s - v.z * t⟩ ≤ _
  rw [hsquare]
  linarith

/-! ### The angle of a quaternion -/

/-- A unit quaternion that turns space by `2 φ`, at most half a turn. -/
structure Turns (q : Quaternion ℝ) (φ : ℝ) : Prop where
  nonneg : 0 ≤ φ
  le_right : φ ≤ Real.pi / 2
  w_eq : q.w = Real.cos φ
  norm_imag : q.imag.norm = Real.sin φ

theorem ofParts_imag (q : Quaternion ℝ) : ofParts q.w q.imag = q := rfl

/-- Every unit quaternion has such an angle, unless its opposite has. -/
theorem IsUnit.exists_turns (hq : q.IsUnit) (hw : 0 ≤ q.w) : ∃ φ, q.Turns φ := by
  have hparts : q.w ^ 2 + q.imag.dot q.imag = 1 := by
    rw [← Rotation.normSq_ofParts, ofParts_imag, hq]
  have hlength := q.imag.dot_self_nonneg
  have hle : q.w ≤ 1 := by nlinarith
  refine ⟨Real.arccos q.w, Real.arccos_nonneg _, Real.arccos_le_pi_div_two.2 hw,
    (Real.cos_arccos (by linarith) hle).symm, ?_⟩
  rw [Real.sin_arccos, ← eq_sub_of_add_eq' hparts]
  rfl

end Quaternion

namespace Rotation

open PoseFilter.Quaternion

variable {a b q : Quaternion ℝ} {r v : Vec3 ℝ} {φ : ℝ}

/-! ### The logarithm -/

theorem cscSeries_eq (φ : ℝ) :
    cscSeries φ = 1 + φ ^ 2 / 6 + 7 * φ ^ 4 / 360 + 31 * φ ^ 6 / 15120 := by
  unfold cscSeries
  norm_num
  ring

theorem cscSeries_mem (h : φ ^ 2 ≤ 1) : 1 ≤ cscSeries φ ∧ cscSeries φ ≤ 1 + φ ^ 2 := by
  have hsq := sq_nonneg φ
  have hfour : φ ^ 4 ≤ φ ^ 2 := by nlinarith
  have hsix : φ ^ 6 ≤ φ ^ 2 := by nlinarith
  have hfour0 : 0 ≤ φ ^ 4 := by positivity
  have hsix0 : 0 ≤ φ ^ 6 := by positivity
  rw [cscSeries_eq]
  constructor <;> linarith

theorem le_two_mul_sin (h₀ : 0 ≤ φ) (h₁ : φ ≤ Real.pi / 2) : φ ≤ 2 * Real.sin φ := by
  have hchord := Real.mul_le_sin h₀ h₁
  have hslope : 1 / 2 ≤ 2 / Real.pi := by
    rw [div_le_div_iff₀ two_pos Real.pi_pos]
    linarith [Real.pi_le_four]
  have hhalf := mul_le_mul_of_nonneg_right hslope h₀
  linarith

/-- **The length of the logarithm** is the angle, up to `1e-11`. -/
theorem logFactor_mul_sin (h₀ : 0 ≤ φ) (h₁ : φ ≤ Real.pi / 2) :
    |Real.sin φ * logFactor (Real.sin φ) (Real.cos φ) - φ| ≤ 1e-11 ∧
      0 ≤ Real.sin φ * logFactor (Real.sin φ) (Real.cos φ) ∧
      Real.sin φ * logFactor (Real.sin φ) (Real.cos φ) ≤ Real.pi / 2 := by
  have hpi := Real.pi_gt_three
  by_cases hcut : (1e-4 : ℝ) ≤ Real.sin φ
  · have hsin : Real.sin φ ≠ 0 := (lt_of_lt_of_le (by norm_num) hcut).ne'
    rw [logFactor_sin_cos hcut (by linarith) (by linarith), mul_div_cancel₀ _ hsin, sub_self, abs_zero]
    exact ⟨by norm_num, h₀, h₁⟩
  · have hseries := logFactor_of_lt (not_le.1 hcut) (by linarith) (by linarith)
    have hsmall : φ ≤ 2e-4 := by
      have hdouble := le_two_mul_sin h₀ h₁
      linarith [not_le.1 hcut]
    have hcube : φ ^ 3 ≤ 8e-12 := by
      calc φ ^ 3 ≤ (2e-4) ^ 3 := pow_le_pow_left₀ h₀ hsmall 3
        _ = 8e-12 := by norm_num
    obtain ⟨hlower, hupper⟩ := cscSeries_mem (φ := φ) (by nlinarith)
    have hsin0 : 0 ≤ Real.sin φ := Real.sin_nonneg_of_nonneg_of_le_pi h₀ (by linarith)
    have hcubic := Real.sin_ge_sub_cube h₀
    -- the sine falls short of the angle by its cube, and the series makes up for no more than that
    have hbelow : φ - φ ^ 3 ≤ Real.sin φ * cscSeries φ := by
      have hone := mul_le_mul_of_nonneg_left hlower hsin0
      have hcube0 : 0 ≤ φ ^ 3 := pow_nonneg h₀ 3
      linarith
    have habove : Real.sin φ * cscSeries φ ≤ φ + φ ^ 3 := by
      calc Real.sin φ * cscSeries φ ≤ φ * (1 + φ ^ 2) :=
            mul_le_mul (Real.sin_le h₀) hupper (zero_le_one.trans hlower) h₀
        _ = φ + φ ^ 3 := by ring
    rw [hseries]
    refine ⟨abs_le.2 ⟨by linarith, by linarith⟩, mul_nonneg hsin0 (zero_le_one.trans hlower), ?_⟩
    linarith

theorem ln_of_turns (h : q.Turns φ) : ln q = q.imag.scale (logFactor (Real.sin φ) (Real.cos φ)) := by
  rw [← h.w_eq, ← h.norm_imag]
  rfl

theorem norm_ln_of_turns (h : q.Turns φ) :
    (ln q).norm = Real.sin φ * logFactor (Real.sin φ) (Real.cos φ) := by
  have hsin : 0 ≤ Real.sin φ := by
    rw [← h.norm_imag]
    exact Real.sqrt_nonneg _
  have hlength := (logFactor_mul_sin h.nonneg h.le_right).2.1
  rw [ln_of_turns h, Vec3.norm_scale, h.norm_imag, ← abs_of_nonneg hsin, ← abs_mul, abs_of_nonneg hsin,
    abs_of_nonneg hlength]

theorem toVector_of_turns (h : q.Turns φ) : toVector q = (ln q).scale 2 := by
  have hw : ¬q.w < 0 := by
    rw [h.w_eq]
    exact not_lt.2 (Real.cos_nonneg_of_neg_pi_div_two_le_of_le (by linarith [h.nonneg, Real.pi_pos])
      h.le_right)
  rw [toVector, shortLn, if_neg hw]
  norm_num

/-! ### The exponential -/

/-- Below the cutoff, where it takes the series, the exponential still lies on the axis of the vector. -/
theorem exp_of_lt_cutoff (h : v.norm < 1e-13) :
    ∃ s, 0 ≤ s ∧ s ≤ 2 ∧ exp v = ofParts (exp v).w (v.scale s) ∧ 0 ≤ (exp v).w := by
  have hnorm : 0 ≤ v.norm := Real.sqrt_nonneg _
  have hexp : exp v = (ofParts (Real.cos v.norm) (v.scale (sinc v.norm))).normalized := rfl
  rw [sinc_of_lt h] at hexp
  set s := 1 - v.norm ^ 2 / 6
  set n := Real.sqrt (ofParts (Real.cos v.norm) (v.scale s)).normSq with hn_def
  have hcos : 1 / 2 ≤ Real.cos v.norm := by
    have hquadratic := Real.one_sub_sq_div_two_le_cos (x := v.norm)
    nlinarith
  have hs : 0 ≤ s ∧ s ≤ 1 := by
    constructor <;> simp only [s] <;> nlinarith
  have hn : 1 / 2 ≤ n := by
    rw [hn_def, normSq_ofParts]
    exact hcos.trans (Real.le_sqrt_of_sq_le (le_add_of_nonneg_right (Vec3.dot_self_nonneg _)))
  have hn0 : 0 < n := by linarith
  have hw : (exp v).w = Real.cos v.norm / n := by
    rw [hexp]
    rfl
  refine ⟨s / n, div_nonneg hs.1 hn0.le, ?_, ?_, ?_⟩
  · rw [div_le_iff₀ hn0]
    linarith
  · rw [hw, hexp]
    ext <;> simp only [ofParts, normalized, Vec3.scale, mul_div_assoc] <;> rfl
  · rw [hw]
    exact div_nonneg (by linarith) hn0.le

theorem norm_mul_of_turns {s : ℝ} (hexp : exp v = ofParts (exp v).w (v.scale s)) (hs : 0 ≤ s)
    (hφ : (exp v).Turns φ) : v.norm * s = Real.sin φ := by
  rw [← hφ.norm_imag, hexp]
  change _ = (v.scale s).norm
  rw [Vec3.norm_scale, abs_of_nonneg hs]

/-- **The angle of the exponential** of a vector is its length, up to `1e-12`; the axis is that of the
vector. -/
theorem exists_exp_eq (hv : v.norm ≤ Real.pi / 2) :
    ∃ φ s, exp v = ofParts (Real.cos φ) (v.scale s) ∧ (exp v).Turns φ ∧ v.norm * s = Real.sin φ ∧
      |φ - v.norm| ≤ 1e-12 := by
  have hnorm : 0 ≤ v.norm := Real.sqrt_nonneg _
  by_cases hcut : (1e-13 : ℝ) ≤ v.norm
  · have hpos : 0 < v.norm := lt_of_lt_of_le (by norm_num) hcut
    have hexp : exp v = ofParts (Real.cos v.norm) (v.scale (Real.sin v.norm / v.norm)) :=
      (exp_of_cutoff_le hcut).1
    have hlength : v.norm * (Real.sin v.norm / v.norm) = Real.sin v.norm := mul_div_cancel₀ _ hpos.ne'
    have hsin : 0 ≤ Real.sin v.norm / v.norm :=
      div_nonneg (Real.sin_nonneg_of_nonneg_of_le_pi hnorm (by linarith [Real.pi_pos])) hnorm
    have hturns : (exp v).Turns v.norm := by
      refine ⟨hnorm, hv, by rw [hexp]; rfl, ?_⟩
      rw [hexp]
      change (v.scale (Real.sin v.norm / v.norm)).norm = _
      rw [Vec3.norm_scale, abs_of_nonneg hsin, hlength]
    refine ⟨v.norm, _, hexp, hturns, hlength, ?_⟩
    rw [sub_self, abs_zero]
    norm_num
  · have hlt := not_le.1 hcut
    obtain ⟨s, hs0, hs2, hexp, hw⟩ := exp_of_lt_cutoff hlt
    obtain ⟨φ, hφ⟩ := (exp_isUnit v).exists_turns hw
    have hsin := norm_mul_of_turns hexp hs0 hφ
    refine ⟨φ, s, by rw [← hφ.w_eq]; exact hexp, hφ, hsin, ?_⟩
    -- the angle and the length are both tiny
    have hdouble := le_two_mul_sin hφ.nonneg hφ.le_right
    have hangle : Real.sin φ ≤ v.norm * 2 := by
      rw [← hsin]
      exact mul_le_mul_of_nonneg_left hs2 hnorm
    have hφ0 := hφ.nonneg
    norm_num at hlt ⊢
    rw [abs_le]
    constructor <;> linarith

/-! ### There and back -/

/-- **From vectors and back**, for vectors of at most a right angle. -/
theorem norm_ln_exp_sub_le (h : v.norm ≤ Real.pi / 2) : (ln (exp v) - v).norm ≤ 2e-11 := by
  obtain ⟨φ, s, hexp, hφ, hsin, hangle⟩ := exists_exp_eq h
  obtain ⟨hlog, -, -⟩ := logFactor_mul_sin hφ.nonneg hφ.le_right
  set f := logFactor (Real.sin φ) (Real.cos φ)
  have himag : (exp v).imag = v.scale s := by
    rw [hexp]
    rfl
  have hdifference : ln (exp v) - v = v.scale (s * f - 1) := by
    rw [ln_of_turns hφ, himag]
    ext <;> simp only [Vec3.sub_x, Vec3.sub_y, Vec3.sub_z, Vec3.scale] <;> ring
  have hnorm : 0 ≤ v.norm := Real.sqrt_nonneg _
  calc (ln (exp v) - v).norm = v.norm * |s * f - 1| := by rw [hdifference, Vec3.norm_scale]
    _ = |(Real.sin φ * f - φ) + (φ - v.norm)| := by
      rw [← abs_of_nonneg hnorm, ← abs_mul, abs_of_nonneg hnorm, ← hsin]
      congr 1
      ring
    _ ≤ 1e-11 + 1e-12 := (abs_add_le _ _).trans (add_le_add hlog hangle)
    _ ≤ 2e-11 := by norm_num

theorem distance_exp_ln_of_turns (h : q.Turns φ) : distance (exp (ln q)) q ≤ 1e-9 := by
  obtain ⟨hlog, -, hright⟩ := logFactor_mul_sin h.nonneg h.le_right
  have hnorm := norm_ln_of_turns h
  obtain ⟨ψ, s, hexp, -, hsin, hangle⟩ := exists_exp_eq (v := ln q) (by rw [hnorm]; exact hright)
  rw [hnorm] at hangle hsin
  set f := logFactor (Real.sin φ) (Real.cos φ)
  have hfirst : q.imag.norm * (f * s) = Real.sin ψ := by
    rw [h.norm_imag, ← mul_assoc, hsin]
  have hsecond : q.imag.norm * 1 = Real.sin φ := by rw [mul_one, h.norm_imag]
  have hq : ofParts (Real.cos φ) (q.imag.scale 1) = q := by
    rw [← h.w_eq, Vec3.scale_one, ofParts_imag]
  calc distance (exp (ln q)) q
      = distance (ofParts (Real.cos ψ) (q.imag.scale (f * s)))
          (ofParts (Real.cos φ) (q.imag.scale 1)) := by
        rw [hexp, ln_of_turns h, Vec3.scale_scale, hq]
    _ ≤ |(ψ - Real.sin φ * f) + (Real.sin φ * f - φ)| := by
        rw [sub_add_sub_cancel]
        exact distance_ofParts_le hfirst hsecond
    _ ≤ 1e-12 + 1e-11 := (abs_add_le _ _).trans (add_le_add hangle hlog)
    _ ≤ 1e-9 := by norm_num

theorem norm_toVector_ofVector_sub_le (h : r.norm ≤ Real.pi) :
    (toVector (ofVector r) - r).norm ≤ 1e-9 := by
  have hhalf : (r.scale 0.5).norm ≤ Real.pi / 2 := by
    have hnorm : (r.scale 0.5).norm = r.norm / 2 := norm_half r
    linarith
  have hr : r = (r.scale 0.5).scale 2 := by
    rw [Vec3.scale_scale]
    norm_num
  obtain ⟨φ, -, -, hφ, -, -⟩ := exists_exp_eq hhalf
  have hdifference : toVector (ofVector r) - r =
      (ln (exp (r.scale 0.5)) - r.scale 0.5).scale 2 := by
    rw [ofVector, toVector_of_turns hφ]
    nth_rewrite 2 [hr]
    ext <;> exact (sub_mul _ _ _).symm
  calc (toVector (ofVector r) - r).norm = (ln (exp (r.scale 0.5)) - r.scale 0.5).norm * 2 := by
        rw [hdifference, Vec3.norm_scale, abs_two]
    _ ≤ 2e-11 * 2 := mul_le_mul_of_nonneg_right (norm_ln_exp_sub_le hhalf) two_pos.le
    _ ≤ 1e-9 := by norm_num

theorem norm_toVector_of_turns (h : q.Turns φ) : (toVector q).norm ≤ Real.pi := by
  have hlength := (logFactor_mul_sin h.nonneg h.le_right).2.2
  rw [toVector_of_turns h, Vec3.norm_scale, norm_ln_of_turns h, abs_two]
  linarith

theorem distance_ofVector_toVector_of_turns (h : q.Turns φ) :
    distance (ofVector (toVector q)) q ≤ 1e-9 := by
  have hone : (2 : ℝ) * 0.5 = 1 := by norm_num
  rw [ofVector, toVector_of_turns h, Vec3.scale_scale, hone, Vec3.scale_one]
  exact distance_exp_ln_of_turns h

/-- Whichever of `q` and `-q` has a scalar part that is not negative. -/
noncomputable def shortWay (q : Quaternion ℝ) : Quaternion ℝ := if 0 ≤ q.w then q else -q

theorem shortWay_cases (q : Quaternion ℝ) : shortWay q = q ∨ shortWay q = -q := by
  unfold shortWay
  split_ifs
  · exact .inl rfl
  · exact .inr rfl

theorem exists_shortWay_turns (hq : q.IsUnit) :
    ∃ φ, (shortWay q).Turns φ ∧ toVector q = toVector (shortWay q) := by
  unfold shortWay
  split_ifs with hw
  · obtain ⟨φ, hφ⟩ := hq.exists_turns hw
    exact ⟨φ, hφ, rfl⟩
  · have hneg : q.w < 0 := not_le.1 hw
    obtain ⟨φ, hφ⟩ := (isUnit_neg hq).exists_turns (neg_nonneg.2 hneg.le)
    exact ⟨φ, hφ, (toVector_neg hneg.ne).symm⟩

/-- **From quaternions and back**: of the two that stand for the same turn, the short way comes back. -/
theorem distance_ofVector_toVector_le (hq : q.IsUnit) :
    (toVector q).norm ≤ Real.pi ∧ distance (ofVector (toVector q)) (shortWay q) ≤ 1e-9 := by
  obtain ⟨φ, hφ, hsame⟩ := exists_shortWay_turns hq
  rw [hsame]
  exact ⟨norm_toVector_of_turns hφ, distance_ofVector_toVector_of_turns hφ⟩

theorem difference_swap (a b : Quaternion ℝ) : difference b a = -difference a b := by
  have hconj : (a * b.conj).conj = b * a.conj := by rw [Quaternion.conj_mul, conj_conj]
  rw [difference, ← hconj, toVector_conj, difference]

/-- **From the rotation between two orientations and back** to the first of them or its opposite. -/
theorem distance_ofVector_difference_mul_le (ha : a.IsUnit) (hb : b.IsUnit) :
    distance (ofVector (difference a b) * b) a ≤ 1e-9 ∨
      distance (ofVector (difference a b) * b) (-a) ≤ 1e-9 := by
  have hconj : b.conj.IsUnit := by rw [Quaternion.IsUnit, normSq_conj, hb]
  have hcancel : a * b.conj * b = a := by
    have hback := hconj.mul_mul_conj a
    rwa [conj_conj] at hback
  have hnear : distance (ofVector (difference a b) * b) (shortWay (a * b.conj) * b) ≤ 1e-9 := by
    rw [hb.distance_mul]
    exact (distance_ofVector_toVector_le (ha.mul_conj hb)).2
  rcases shortWay_cases (a * b.conj) with h | h
  · rw [h, hcancel] at hnear
    exact .inl hnear
  · rw [h, Quaternion.neg_mul, hcancel] at hnear
    exact .inr hnear

/-- **The rotation maps are inverse to one another**, up to `1e-9` and through all branches: every
vector of at most half a turn comes back from its quaternion; every unit quaternion has a vector of at
most half a turn, from which it comes back if its scalar part is not negative, and as its opposite
otherwise; the rotation between two unit quaternions leads from the second to the first or to its
opposite, and the rotation the other way is the opposite vector exactly. -/
theorem maps_inverse :
    (∀ r : Vec3 ℝ, r.norm ≤ Real.pi → (toVector (ofVector r) - r).norm ≤ 1e-9) ∧
    (∀ q : Quaternion ℝ, q.IsUnit → (toVector q).norm ≤ Real.pi ∧
      distance (ofVector (toVector q)) (if 0 ≤ q.w then q else -q) ≤ 1e-9) ∧
    ∀ a b : Quaternion ℝ, a.IsUnit → b.IsUnit →
      (distance (ofVector (difference a b) * b) a ≤ 1e-9 ∨
        distance (ofVector (difference a b) * b) (-a) ≤ 1e-9) ∧
      difference b a = -difference a b :=
  ⟨fun _ hr => norm_toVector_ofVector_sub_le hr, fun _ hq => distance_ofVector_toVector_le hq,
    fun a b ha hb => ⟨distance_ofVector_difference_mul_le ha hb, difference_swap a b⟩⟩

/-- Half a turn as a vector, the opposite of the identity, and two orientations half a turn apart. -/
theorem maps_inverse_half_turn :
    let r : Vec3 ℝ := ⟨Real.pi, 0, 0⟩
    let q : Quaternion ℝ := -identity
    let a : Quaternion ℝ := ⟨0, 1, 0, 0⟩
    (r.norm ≤ Real.pi ∧ q.IsUnit ∧ a.IsUnit ∧ (identity : Quaternion ℝ).IsUnit) ∧
      (toVector (ofVector r) - r).norm ≤ 1e-9 ∧
      distance (ofVector (toVector q)) identity ≤ 1e-9 ∧
      difference identity a = -difference a identity := by
  intro r q a
  have hr : r.norm ≤ Real.pi := by
    change Real.sqrt (Real.pi * Real.pi + 0 * 0 + 0 * 0) ≤ Real.pi
    rw [mul_zero, add_zero, add_zero, Real.sqrt_mul_self Real.pi_pos.le]
  have hq : q.IsUnit := by simp [q, Quaternion.IsUnit, normSq, identity]
  have ha : a.IsUnit := by simp [a, Quaternion.IsUnit, normSq]
  obtain ⟨hvectors, hquaternions, hrotations⟩ := maps_inverse
  have hback := (hquaternions q hq).2
  have hw : ¬0 ≤ q.w := by simp [q, identity]
  rw [if_neg hw, Quaternion.neg_neg] at hback
  exact ⟨⟨hr, hq, ha, isUnit_identity⟩, hvectors r hr, hback,
    (hrotations a identity ha isUnit_identity).2⟩

end Rotation

end PoseFilter
