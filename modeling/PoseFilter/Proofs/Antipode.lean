import PoseFilter.Proofs.RoundTrip

/-!
# The logarithm near the opposite of the identity

The logarithm decides by the length of the vector part whether to take its series, and the vector part is
short at both ends: near the identity, where the series is that of `θ / sin θ`, and near its opposite,
where the angle is `π` and the series is about `6.5` while `θ / sin θ` grows without bound.  Away from the
second end the plain maps undo one another: exactly where the logarithm does not take its series
(`Rotation.exp_ln`), and up to the error of the series near the identity.  Near it, a logarithm that
should be almost `π` long is shorter than `1e-3`:

* a vector does not come back from its exponential (`Rotation.two_lt_norm_ln_exp_sub`);
* a quaternion whose vector part has the length `s` comes back as its opposite, but for a distance of about
  `7.5 s` (`Rotation.distance_exp_ln_of_far`).

`Rotation.inverse_up_to_antipode` says where the ways there and back are within `1e-9`, and where they are
not.
-/

namespace PoseFilter

namespace Quaternion

variable {q : Quaternion ℝ} {v : Vec3 ℝ} {φ ψ s t : ℝ}

/-! ### Lower bounds of distances -/

theorem abs_w_sub_le_distance (p q : Quaternion ℝ) : |p.w - q.w| ≤ distance p q := by
  refine Real.abs_le_sqrt ?_
  change (p.w - q.w) ^ 2 ≤ (p.w - q.w) * (p.w - q.w) + (p.x - q.x) * (p.x - q.x) +
    (p.y - q.y) * (p.y - q.y) + (p.z - q.z) * (p.z - q.z)
  linarith [sq (p.w - q.w), mul_self_nonneg (p.x - q.x), mul_self_nonneg (p.y - q.y),
    mul_self_nonneg (p.z - q.z)]

theorem norm_imag_sub_le_distance (p q : Quaternion ℝ) : (p.imag - q.imag).norm ≤ distance p q := by
  refine Real.sqrt_le_sqrt ?_
  change (p.x - q.x) * (p.x - q.x) + (p.y - q.y) * (p.y - q.y) + (p.z - q.z) * (p.z - q.z) ≤
    (p.w - q.w) * (p.w - q.w) + (p.x - q.x) * (p.x - q.x) + (p.y - q.y) * (p.y - q.y) +
      (p.z - q.z) * (p.z - q.z)
  linarith [mul_self_nonneg (p.w - q.w)]

theorem abs_sin_sub_sin_le_distance (hs : v.norm * s = Real.sin φ) (ht : v.norm * t = Real.sin ψ) :
    |Real.sin φ - Real.sin ψ| ≤
      distance (ofParts (Real.cos φ) (v.scale s)) (ofParts (Real.cos ψ) (v.scale t)) := by
  have hvectors : v.scale s - v.scale t = v.scale (s - t) := by
    ext <;> exact (mul_sub _ _ _).symm
  have hnorm : 0 ≤ v.norm := Real.sqrt_nonneg _
  calc |Real.sin φ - Real.sin ψ| = v.norm * |s - t| := by
        rw [← hs, ← ht, ← mul_sub, abs_mul, abs_of_nonneg hnorm]
    _ = (v.scale s - v.scale t).norm := by rw [hvectors, Vec3.norm_scale]
    _ ≤ _ := norm_imag_sub_le_distance (ofParts (Real.cos φ) (v.scale s))
      (ofParts (Real.cos ψ) (v.scale t))

theorem distance_self (q : Quaternion ℝ) : distance q q = 0 := by
  simp [distance, normSq]

/-! ### The angle of a quaternion, the long way round as well -/

theorem norm_imag_neg (q : Quaternion ℝ) : (-q).imag.norm = q.imag.norm := by
  rw [imag_neg, Vec3.norm_neg]

/-- Every unit quaternion has an angle between 0 and `π`: the long way round counts on from `π / 2`. -/
theorem IsUnit.exists_angle (hq : q.IsUnit) :
    ∃ φ, 0 ≤ φ ∧ φ ≤ Real.pi ∧ q.w = Real.cos φ ∧ q.imag.norm = Real.sin φ := by
  have hpi := Real.pi_pos
  rcases le_or_gt 0 q.w with hw | hw
  · obtain ⟨φ, hφ⟩ := hq.exists_turns hw
    exact ⟨φ, hφ.nonneg, by linarith [hφ.le_right], hφ.w_eq, hφ.norm_imag⟩
  · obtain ⟨ε, hε⟩ := (isUnit_neg hq).exists_turns (neg_nonneg.2 hw.le)
    refine ⟨Real.pi - ε, by linarith [hε.le_right], by linarith [hε.nonneg], ?_, ?_⟩
    · rw [Real.cos_pi_sub, ← hε.w_eq, neg_w, neg_neg]
    · rw [Real.sin_pi_sub, ← hε.norm_imag, norm_imag_neg]

end Quaternion

namespace Rotation

open PoseFilter.Quaternion

variable {q : Quaternion ℝ} {v : Vec3 ℝ} {φ ε x : ℝ}

/-! ### Away from the opposite -/

/-- **A quaternion comes back from its logarithm** where that is not a series. -/
theorem exp_ln (hq : q.IsUnit) (h : 1e-4 ≤ q.imag.norm) : exp (ln q) = q := by
  obtain ⟨φ, h₀, hpi, hw, hs⟩ := hq.exists_angle
  rw [hs] at h
  have hsin : 0 < Real.sin φ := lt_of_lt_of_le (by norm_num) h
  have hφ : 1e-4 ≤ φ := h.trans (Real.sin_le h₀)
  have hφ₀ : 0 < φ := lt_of_lt_of_le (by norm_num) hφ
  have hln : ln q = q.imag.scale (φ / Real.sin φ) := by
    rw [← logFactor_sin_cos h (by linarith [Real.pi_pos]) hpi, ← hw, ← hs]
    rfl
  have hnorm : (ln q).norm = φ := by
    rw [hln, Vec3.norm_scale, hs, abs_of_nonneg (by positivity), mul_div_cancel₀ _ hsin.ne']
  have hcut : (1e-13 : ℝ) ≤ (ln q).norm := by
    rw [hnorm]
    exact le_trans (by norm_num) hφ
  have hexp : exp (ln q) =
      ofParts (Real.cos (ln q).norm) ((ln q).scale (Real.sin (ln q).norm / (ln q).norm)) :=
    (exp_of_cutoff_le hcut).1
  have hcancel : φ / Real.sin φ * (Real.sin φ / φ) = 1 := by
    field_simp
  rw [hexp, hnorm, hln, Vec3.scale_scale, hcancel, Vec3.scale_one, ← hw, ofParts_imag]

/-! ### Near the opposite -/

theorem mul_le_sin (h₀ : 0 ≤ x) (h₁ : x ≤ 1e-3) : 0.999 * x ≤ Real.sin x := by
  have hcubic := Real.sin_ge_sub_cube h₀
  have hcube : x ^ 3 ≤ 1e-6 * x := by
    calc x ^ 3 = x ^ 2 * x := by ring
      _ ≤ (1e-3) ^ 2 * x := by gcongr
      _ = 1e-6 * x := by norm_num
  norm_num at hcube ⊢
  linarith

/-- The series of the logarithm near `π`, where it has no business. -/
theorem cscSeries_near_pi (h : 3.139 ≤ φ) (hpi : φ ≤ Real.pi) :
    6.4 ≤ cscSeries φ ∧ cscSeries φ ≤ 6.6 := by
  have hupper : φ ≤ 3.15 := hpi.trans Real.pi_lt_d2.le
  have h₀ : 0 ≤ φ := le_trans (by norm_num) h
  rw [cscSeries_eq]
  constructor
  · calc (6.4 : ℝ) ≤ 1 + 3.139 ^ 2 / 6 + 7 * 3.139 ^ 4 / 360 + 31 * 3.139 ^ 6 / 15120 := by norm_num
      _ ≤ 1 + φ ^ 2 / 6 + 7 * φ ^ 4 / 360 + 31 * φ ^ 6 / 15120 := by gcongr
  · calc 1 + φ ^ 2 / 6 + 7 * φ ^ 4 / 360 + 31 * φ ^ 6 / 15120
        ≤ 1 + 3.15 ^ 2 / 6 + 7 * 3.15 ^ 4 / 360 + 31 * 3.15 ^ 6 / 15120 := by gcongr
      _ ≤ 6.6 := by norm_num

/-- **Near the opposite the logarithm takes its series**, and is far too short. -/
theorem logFactor_of_far (h₀ : 0 ≤ ε) (h₁ : ε ≤ Real.pi / 2) (h : Real.sin ε < 1e-4) :
    ε ≤ 1.002 * Real.sin ε ∧ 6.4 ≤ logFactor (Real.sin ε) (-Real.cos ε) ∧
      logFactor (Real.sin ε) (-Real.cos ε) ≤ 6.6 := by
  have hdouble := le_two_mul_sin h₀ h₁
  have hpi := Real.pi_gt_d2
  have hsmall : ε ≤ 2e-4 := by
    norm_num at h ⊢
    linarith
  have hsin := mul_le_sin h₀ (hsmall.trans (by norm_num))
  have hfar : 3.139 ≤ Real.pi - ε := by
    norm_num at hsmall hpi ⊢
    linarith
  refine ⟨?_, ?_⟩
  · norm_num at hsin ⊢
    linarith
  · rw [← Real.sin_pi_sub] at h ⊢
    rw [← Real.cos_pi_sub, logFactor_of_lt h (by linarith) (by linarith)]
    exact cscSeries_near_pi hfar (by linarith)

theorem turns_neg_exp (h₁ : Real.pi / 2 ≤ v.norm) (h₂ : v.norm ≤ Real.pi) :
    (-exp v).Turns (Real.pi - v.norm) := by
  have hnorm : 1 < v.norm := by linarith [Real.pi_gt_three]
  have hexp : exp v = ofParts (Real.cos v.norm) (v.scale (Real.sin v.norm / v.norm)) :=
    (exp_of_cutoff_le (le_trans (by norm_num) hnorm.le)).1
  have hsin : 0 ≤ Real.sin v.norm := Real.sin_nonneg_of_nonneg_of_le_pi (by linarith) h₂
  refine ⟨by linarith, by linarith, ?_, ?_⟩
  · rw [Real.cos_pi_sub, hexp]
    rfl
  · rw [Real.sin_pi_sub, norm_imag_neg, hexp]
    change (v.scale (Real.sin v.norm / v.norm)).norm = _
    rw [Vec3.norm_scale, abs_of_nonneg (by positivity), mul_div_cancel₀ _ (by positivity)]

/-- **A vector near half a turn does not come back** from its exponential. -/
theorem two_lt_norm_ln_exp_sub (h₁ : Real.pi / 2 < v.norm) (h₂ : v.norm < Real.pi)
    (hsin : Real.sin v.norm < 1e-4) : 2 < (ln (exp v) - v).norm := by
  have hpi := Real.pi_gt_three
  have hnorm : 0 < v.norm := by linarith
  have hcut : (1e-13 : ℝ) ≤ v.norm := by
    norm_num
    linarith
  have hexp : exp v = ofParts (Real.cos v.norm) (v.scale (Real.sin v.norm / v.norm)) :=
    (exp_of_cutoff_le hcut).1
  have hturns := turns_neg_exp h₁.le h₂.le
  rw [← Real.sin_pi_sub] at hsin
  obtain ⟨hnear, hlower, hupper⟩ := logFactor_of_far hturns.nonneg hturns.le_right hsin
  rw [Real.sin_pi_sub] at hsin hnear hlower hupper
  rw [Real.cos_pi_sub, neg_neg] at hlower hupper
  have himag : (exp v).imag.norm = Real.sin v.norm := by
    rw [← norm_imag_neg, hturns.norm_imag, Real.sin_pi_sub]
  have hw : (exp v).w = Real.cos v.norm := by
    rw [hexp]
    rfl
  have hln : ln (exp v) = (exp v).imag.scale (logFactor (exp v).imag.norm (exp v).w) := rfl
  rw [himag, hw] at hln
  set f := logFactor (Real.sin v.norm) (Real.cos v.norm)
  have hdifference : ln (exp v) - v = v.scale (Real.sin v.norm / v.norm * f - 1) := by
    rw [hln, hexp]
    ext <;> simp only [Vec3.sub_x, Vec3.sub_y, Vec3.sub_z, Vec3.scale, ofParts, imag] <;> ring
  -- the series stays below 6.6 where the quotient is large, so the logarithm is too short
  have hlog : Real.sin v.norm * f ≤ 1e-4 * 6.6 :=
    mul_le_mul hsin.le hupper (le_trans (by norm_num) hlower) (by norm_num)
  calc (2 : ℝ) < v.norm - Real.sin v.norm * f := by
        norm_num at hlog hsin hnear
        linarith
    _ = v.norm * -(Real.sin v.norm / v.norm * f - 1) := by
        field_simp
        ring
    _ ≤ (ln (exp v) - v).norm := by
        rw [hdifference, Vec3.norm_scale]
        exact mul_le_mul_of_nonneg_left (neg_le_abs _) hnorm.le

theorem exists_exp_ln_of_far (h : (-q).Turns ε) (hsin : Real.sin ε < 1e-4) :
    ∃ ψ s, exp (ln q) = ofParts (Real.cos ψ) (q.imag.scale s) ∧ q.imag.norm * s = Real.sin ψ ∧
      0 ≤ ψ ∧ 6.4 * Real.sin ε - 1e-12 ≤ ψ ∧ ψ ≤ 6.6 * Real.sin ε + 1e-12 := by
  obtain ⟨-, hlower, hupper⟩ := logFactor_of_far h.nonneg h.le_right hsin
  have hw : q.w = -Real.cos ε := by rw [← h.w_eq, neg_w, neg_neg]
  have himag : q.imag.norm = Real.sin ε := by rw [← h.norm_imag, norm_imag_neg]
  have hln : ln q = q.imag.scale (logFactor (Real.sin ε) (-Real.cos ε)) := by
    rw [← himag, ← hw]
    rfl
  set f := logFactor (Real.sin ε) (-Real.cos ε)
  have hs : 0 ≤ Real.sin ε := by
    rw [← himag]
    exact Real.sqrt_nonneg _
  have hlength : (ln q).norm = f * Real.sin ε := by
    rw [hln, Vec3.norm_scale, himag, abs_of_nonneg (le_trans (by norm_num) hlower), mul_comm]
  have hlengthLower : 6.4 * Real.sin ε ≤ (ln q).norm := by
    rw [hlength]
    gcongr
  have hlengthUpper : (ln q).norm ≤ 6.6 * Real.sin ε := by
    rw [hlength]
    gcongr
  have hshort : (ln q).norm ≤ Real.pi / 2 := by
    norm_num at hsin hlengthUpper
    linarith [Real.pi_gt_three]
  -- the logarithm is short enough for its exponential to turn by its length
  obtain ⟨ψ, t, hexp, hψ, ht, hangle⟩ := exists_exp_eq hshort
  obtain ⟨hangleLower, hangleUpper⟩ := abs_le.1 hangle
  refine ⟨ψ, f * t, ?_, ?_, hψ.nonneg, by linarith, by linarith⟩
  · rw [hexp, hln, Vec3.scale_scale]
  · rw [← ht, hlength, himag]
    ring

/-- **A quaternion near the opposite of the identity** comes back as its opposite, but for a distance of
about `7.5` times the length of its vector part. -/
theorem distance_exp_ln_of_far (h : (-q).Turns ε) (hsin : Real.sin ε < 1e-4) :
    |distance (exp (ln q)) (-q) - 7.5 * Real.sin ε| ≤ 0.2 * Real.sin ε + 1e-12 ∧
      1 / 2 ≤ distance (exp (ln q)) q := by
  obtain ⟨hε, -⟩ := logFactor_of_far h.nonneg h.le_right hsin
  obtain ⟨ψ, s, hexp, hs, hψ₀, hψlower, hψupper⟩ := exists_exp_ln_of_far h hsin
  have hw : q.w = -Real.cos ε := by rw [← h.w_eq, neg_w, neg_neg]
  have hψ : ψ ≤ 1e-3 := by
    norm_num at hsin hψupper ⊢
    linarith
  constructor
  · -- both lie on one axis, `exp (ln q)` at the angle `ψ` and `-q` at `-ε`
    have hopposite : -q = ofParts (Real.cos (-ε)) (q.imag.scale (-1)) := by
      rw [Real.cos_neg, ← neg_neg (Real.cos ε), ← hw]
      ext
      · rfl
      · exact (mul_neg_one q.x).symm
      · exact (mul_neg_one q.y).symm
      · exact (mul_neg_one q.z).symm
    have hone : q.imag.norm * -1 = Real.sin (-ε) := by
      rw [Real.sin_neg, ← h.norm_imag, norm_imag_neg, mul_neg_one]
    have hupper := distance_ofParts_le hs hone
    have hlower := abs_sin_sub_sin_le_distance hs hone
    rw [← hexp, ← hopposite, sub_neg_eq_add, abs_of_nonneg (add_nonneg hψ₀ h.nonneg)] at hupper
    rw [← hexp, ← hopposite, Real.sin_neg, sub_neg_eq_add] at hlower
    have hsinψ := mul_le_sin hψ₀ hψ
    have hsum := (le_abs_self _).trans hlower
    have hsin₀ := Real.sin_nonneg_of_nonneg_of_le_pi h.nonneg (by linarith [h.le_right, Real.pi_pos])
    norm_num at hε hψlower hψupper hsinψ ⊢
    rw [abs_le]
    constructor <;> linarith
  · have hcos : ∀ {x : ℝ}, 0 ≤ x → x ≤ 1 → 1 / 2 ≤ Real.cos x := by
      intro x h₀ h₁
      have hquadratic := Real.one_sub_sq_div_two_le_cos (x := x)
      have hsquare : x ^ 2 ≤ 1 := pow_le_one₀ h₀ h₁
      linarith
    have hψcos := hcos hψ₀ (hψ.trans (by norm_num))
    have hεcos : 1 / 2 ≤ Real.cos ε := by
      refine hcos h.nonneg ?_
      norm_num at hsin hε
      linarith
    calc (1 : ℝ) / 2 ≤ Real.cos ψ - q.w := by
          rw [hw]
          linarith
      _ = (exp (ln q)).w - q.w := by
          rw [hexp]
          rfl
      _ ≤ distance (exp (ln q)) q := (le_abs_self _).trans (abs_w_sub_le_distance _ _)

/-! ### There and back -/

/-- **The vectors that come back** are those whose exponential is not near the opposite. -/
theorem norm_ln_exp_sub_le_iff (hv : v.norm < Real.pi) :
    (ln (exp v) - v).norm ≤ 1e-9 ↔ v.norm ≤ Real.pi / 2 ∨ 1e-4 ≤ Real.sin v.norm := by
  constructor
  · intro hnear
    by_contra hfar
    obtain ⟨hlong, hsin⟩ := not_or.1 hfar
    have hapart := two_lt_norm_ln_exp_sub (not_le.1 hlong) hv (not_le.1 hsin)
    norm_num at hnear
    linarith
  · rintro (hshort | hsin)
    · exact (norm_ln_exp_sub_le hshort).trans (by norm_num)
    · have hback : ln (exp v) = v := ln_exp hv hsin
      have hzero : v - v = Vec3.zero := by
        ext <;> exact sub_self _
      rw [hback, hzero, Vec3.norm_zero]
      norm_num

/-- **The plain maps undo one another up to the opposite of the identity.**  A vector shorter than `π`
comes back from its exponential within `1e-9` exactly if it is at most a right angle long or its sine is
at least `1e-4`.  A unit quaternion comes back from its logarithm within `1e-9` if its scalar part is not
negative or its vector part is at least `1e-4` long.  If neither is the case, its opposite comes back
within `1e-9` if the vector part is shorter than `1.2e-10`, and neither of the two does from `1.4e-10`
on. -/
theorem inverse_up_to_antipode (v : Vec3 ℝ) (hv : v.norm < Real.pi) (q : Quaternion ℝ)
    (hq : q.IsUnit) :
    ((ln (exp v) - v).norm ≤ 1e-9 ↔ v.norm ≤ Real.pi / 2 ∨ 1e-4 ≤ Real.sin v.norm) ∧
      ((0 ≤ q.w ∨ 1e-4 ≤ q.imag.norm) → distance (exp (ln q)) q ≤ 1e-9) ∧
      (q.w < 0 → q.imag.norm < 1e-4 →
        (q.imag.norm ≤ 1.2e-10 → distance (exp (ln q)) (-q) ≤ 1e-9) ∧
        (1.4e-10 ≤ q.imag.norm →
          1e-9 < distance (exp (ln q)) q ∧ 1e-9 < distance (exp (ln q)) (-q))) := by
  refine ⟨norm_ln_exp_sub_le_iff hv, ?_, ?_⟩
  · rintro (hw | himag)
    · obtain ⟨φ, hφ⟩ := hq.exists_turns hw
      exact distance_exp_ln_of_turns hφ
    · rw [exp_ln hq himag, distance_self]
      norm_num
  · intro hw himag
    obtain ⟨ε, hε⟩ := (isUnit_neg hq).exists_turns (neg_nonneg.2 hw.le)
    have hsin : q.imag.norm = Real.sin ε := by rw [← hε.norm_imag, norm_imag_neg]
    rw [hsin] at himag ⊢
    obtain ⟨hdistance, hhalf⟩ := distance_exp_ln_of_far hε himag
    obtain ⟨hlower, hupper⟩ := abs_le.1 hdistance
    norm_num at hlower hupper ⊢
    refine ⟨fun hshort => ?_, fun hlong => ⟨?_, ?_⟩⟩ <;> linarith

/-- A vector that comes back, and the opposite of the identity. -/
theorem inverse_up_to_antipode_three :
    let v : Vec3 ℝ := ⟨3, 0, 0⟩
    let q : Quaternion ℝ := -identity
    (v.norm < Real.pi ∧ q.IsUnit) ∧ (ln (exp v) - v).norm ≤ 1e-9 ∧
      distance (exp (ln q)) (-q) ≤ 1e-9 := by
  intro v q
  have hnorm : v.norm = 3 := by
    change Real.sqrt (3 * 3 + 0 * 0 + 0 * 0) = 3
    rw [mul_zero, add_zero, add_zero, Real.sqrt_mul_self (by norm_num)]
  have hlt : v.norm < Real.pi := by
    rw [hnorm]
    exact Real.pi_gt_three
  have hsin : 1e-4 ≤ Real.sin v.norm := by
    have hpi := Real.pi_gt_d2
    have hdouble := le_two_mul_sin (φ := Real.pi - 3) (by linarith [Real.pi_gt_three])
      (by linarith [Real.pi_lt_d2])
    rw [Real.sin_pi_sub] at hdouble
    rw [hnorm]
    norm_num at hpi ⊢
    linarith
  have hq : q.IsUnit := isUnit_neg isUnit_identity
  have hw : q.w < 0 := by
    change -(1 : ℝ) < 0
    norm_num
  have himag : q.imag.norm = 0 := by
    rw [norm_imag_neg]
    exact Vec3.norm_zero
  obtain ⟨hvector, -, hfar⟩ := inverse_up_to_antipode v hlt q hq
  have hback := (hfar hw (by rw [himag]; norm_num)).1 (by rw [himag]; norm_num)
  exact ⟨⟨hlt, hq⟩, hvector.2 (.inr hsin), hback⟩

/-- **Not every vector shorter than `π` comes back**, nor does every unit quaternion or its opposite: at
`3.1415` about one axis, neither the vector nor its exponential does. -/
theorem inverse_fails_near_antipode :
    let v : Vec3 ℝ := ⟨3.1415, 0, 0⟩
    let q := exp v
    (v.norm < Real.pi ∧ 1e-9 < (ln (exp v) - v).norm) ∧
      (q.IsUnit ∧ q ≠ -identity) ∧ 1e-9 < distance (exp (ln q)) q ∧
        1e-9 < distance (exp (ln q)) (-q) := by
  intro v q
  have hnorm : v.norm = 3.1415 := by
    change Real.sqrt (3.1415 * 3.1415 + 0 * 0 + 0 * 0) = 3.1415
    rw [mul_zero, add_zero, add_zero, Real.sqrt_mul_self (by norm_num)]
  have hlower := Real.pi_gt_d6
  have hupper := Real.pi_lt_d6
  have hlt : v.norm < Real.pi := by
    rw [hnorm]
    exact Real.pi_gt_d4
  have hlong : Real.pi / 2 < v.norm := by
    rw [hnorm]
    norm_num at hupper ⊢
    linarith
  have hturns := turns_neg_exp hlong.le hlt.le
  rw [hnorm] at hturns
  have hsin : Real.sin (Real.pi - 3.1415) < 1e-4 := by
    refine (Real.sin_lt ?_).trans ?_
    · norm_num at hlower ⊢
      linarith
    · norm_num at hupper ⊢
      linarith
  have hpos : 9e-5 ≤ Real.sin (Real.pi - 3.1415) := by
    have halmost := mul_le_sin hturns.nonneg (by norm_num at hupper ⊢; linarith)
    norm_num at hlower halmost ⊢
    linarith
  obtain ⟨hdistance, hhalf⟩ := distance_exp_ln_of_far hturns hsin
  have hvector := two_lt_norm_ln_exp_sub hlong hlt (by rwa [hnorm, ← Real.sin_pi_sub])
  refine ⟨⟨hlt, lt_trans (by norm_num) hvector⟩, ⟨exp_isUnit v, ?_⟩, ?_, ?_⟩
  · intro hopposite
    have himag : (-q).imag.norm = 0 := by
      rw [hopposite, Quaternion.neg_neg]
      exact Vec3.norm_zero
    rw [hturns.norm_imag] at himag
    rw [himag] at hpos
    norm_num at hpos
  · exact lt_of_lt_of_le (by norm_num) hhalf
  · have hfar := (abs_le.1 hdistance).1
    norm_num at hfar hpos ⊢
    linarith

end Rotation

end PoseFilter
