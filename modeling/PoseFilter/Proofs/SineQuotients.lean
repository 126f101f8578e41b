import PoseFilter.Proofs.RoundTrip

/-!
# The two quotients of the sine

The rotation maps use `sin θ / θ` and `θ / sin θ`, and near zero a series for each.  The series of
`θ / sin θ` is within `θ⁸` of the quotient on `[-1, 1]`.  The series of `sin θ / θ` is used for every angle
below its cutoff, and so for every negative one.  How far the quotient is above that series is an even
function that vanishes at zero and grows on both sides, since it is the slope of the chords from zero of
the convex function `sin θ - θ + θ³ / 6`.  So there is one angle, a little above `3.3e-3`, at which the
series is off by `1e-12`, and that is how far below zero `sinc` can be relied on: its `seriesReach`.

* `Rotation.abs_sin_sub_seventh_le` : the sine to seventh order.
* `Rotation.strictMonoOn_seriesGap` : the difference grows with the angle.
* `Rotation.abs_sinc_sub_le_iff` : where `sinc` is `sin θ / θ`; `Rotation.abs_cscSeries_sub_le` : how near
  the other series is.
* `Rotation.sine_quotients` : both together; `Rotation.sinc_off_below_zero` : an angle at which it is not.

The exponential takes `sinc` of a length, which is never negative, so the rotation maps are not affected.
-/

namespace PoseFilter

namespace Rotation

variable {θ : ℝ}

/-! ### The sine -/

theorem sum_range_nine_mul_I (θ : ℝ) :
    ∑ m ∈ Finset.range 9, ((θ : ℂ) * Complex.I) ^ m / m.factorial =
      ⟨1 - θ ^ 2 / 2 + θ ^ 4 / 24 - θ ^ 6 / 720 + θ ^ 8 / 40320,
        θ - θ ^ 3 / 6 + θ ^ 5 / 120 - θ ^ 7 / 5040⟩ := by
  rw [Complex.mk_eq_add_mul_I]
  simp [Finset.sum_range_succ, Nat.factorial]
  grind [Complex.I_sq]

/-- **The sine to seventh order**, with the remainder of the exponential series. -/
theorem abs_sin_sub_seventh_le (h : |θ| ≤ 1) :
    |Real.sin θ - (θ - θ ^ 3 / 6 + θ ^ 5 / 120 - θ ^ 7 / 5040)| ≤ |θ| ^ 9 / 326592 := by
  have hnorm : ‖(θ : ℂ) * Complex.I‖ = |θ| := by simp
  have hbound := Complex.exp_bound (x := θ * Complex.I) (by rwa [hnorm]) (n := 9) (by norm_num)
  have himag := (Complex.abs_im_le_norm _).trans hbound
  rw [Complex.sub_im, Complex.exp_ofReal_mul_I_im, sum_range_nine_mul_I, hnorm] at himag
  calc _ ≤ _ := himag
    _ = |θ| ^ 9 / 326592 := by
      norm_num [Nat.factorial]
      ring

/-! ### The series of `sin θ / θ` -/

/-- What the sine is above its expansion to third order. -/
noncomputable def sineSurplus (θ : ℝ) : ℝ := Real.sin θ - θ + θ ^ 3 / 6

/-- Its second derivative is `θ - sin θ`. -/
theorem strictConvexOn_sineSurplus : StrictConvexOn ℝ (Set.Ici 0) sineSurplus := by
  have hfirst : ∀ x, HasDerivAt sineSurplus (Real.cos x - 1 + x ^ 2 / 2) x := by
    intro x
    have hsum : HasDerivAt sineSurplus (Real.cos x - 1 + 3 * x ^ 2 / 6) x :=
      ((Real.hasDerivAt_sin x).sub (hasDerivAt_id x)).add ((hasDerivAt_pow 3 x).div_const 6)
    refine hsum.congr_deriv ?_
    ring
  have hsecond : ∀ x, HasDerivAt (fun x => Real.cos x - 1 + x ^ 2 / 2) (x - Real.sin x) x := by
    intro x
    refine (((Real.hasDerivAt_cos x).sub_const 1).add
      ((hasDerivAt_pow 2 x).div_const 2)).congr_deriv ?_
    simp only [Nat.cast_ofNat, Nat.add_one_sub_one, pow_one]
    ring
  refine strictConvexOn_of_deriv2_pos (convex_Ici 0)
    (fun x _ => (hfirst x).continuousAt.continuousWithinAt) fun x hx => ?_
  rw [interior_Ici] at hx
  have hderiv : deriv sineSurplus = fun x => Real.cos x - 1 + x ^ 2 / 2 :=
    funext fun x => (hfirst x).deriv
  rw [Function.iterate_succ, Function.iterate_one, Function.comp_apply, hderiv, (hsecond x).deriv]
  exact sub_pos.2 (Real.sin_lt hx)

/-- How far `sin θ / θ` is above its series. -/
noncomputable def seriesGap (θ : ℝ) : ℝ := Real.sinc θ - (1 - θ ^ 2 / 6)

theorem seriesGap_abs (θ : ℝ) : seriesGap |θ| = seriesGap θ := by
  rcases abs_choice θ with h | h
  · rw [h]
  · rw [h, seriesGap, seriesGap, Real.sinc_neg, neg_sq]

theorem seriesGap_eq (h : θ ≠ 0) :
    seriesGap θ = (sineSurplus θ - sineSurplus 0) / (θ - 0) := by
  have hzero : sineSurplus 0 = 0 := by simp [sineSurplus]
  rw [seriesGap, Real.sinc_of_ne_zero h, hzero, sub_zero, sub_zero, sineSurplus]
  field_simp
  ring

/-- **The difference grows with the angle.** -/
theorem strictMonoOn_seriesGap : StrictMonoOn seriesGap (Set.Ioi 0) := by
  intro x hx y hy hxy
  have hx' : 0 < x := hx
  have hy' : 0 < y := hy
  rw [seriesGap_eq hx'.ne', seriesGap_eq hy'.ne']
  exact strictConvexOn_sineSurplus.secant_strict_mono Set.self_mem_Ici hx'.le hy'.le hx'.ne' hy'.ne' hxy

theorem seriesGap_nonneg (h : 0 < θ) : 0 ≤ seriesGap θ := by
  have hzero : sineSurplus 0 = 0 := by simp [sineSurplus]
  have hsurplus : 0 ≤ sineSurplus θ := by
    have hcubic := Real.sin_ge_sub_cube h.le
    rw [sineSurplus]
    linarith
  rw [seriesGap_eq h.ne', hzero, sub_zero, sub_zero]
  exact div_nonneg hsurplus h.le

theorem abs_seriesGap_sub_le (h₀ : 0 < θ) (h₁ : θ ≤ 1) :
    |seriesGap θ - (θ ^ 4 / 120 - θ ^ 6 / 5040)| ≤ θ ^ 8 / 326592 := by
  have hsine := abs_sin_sub_seventh_le (θ := θ) (by rwa [abs_of_pos h₀])
  have hquotient : seriesGap θ - (θ ^ 4 / 120 - θ ^ 6 / 5040) =
      (Real.sin θ - (θ - θ ^ 3 / 6 + θ ^ 5 / 120 - θ ^ 7 / 5040)) / θ := by
    rw [seriesGap, Real.sinc_of_ne_zero h₀.ne']
    field_simp
    ring
  rw [hquotient, abs_div, abs_of_pos h₀, div_le_iff₀ h₀]
  rw [abs_of_pos h₀] at hsine
  calc _ ≤ θ ^ 9 / 326592 := hsine
    _ = θ ^ 8 / 326592 * θ := by ring

theorem exists_seriesGap_eq : ∃ b, 3.3e-3 < b ∧ b < 3.31e-3 ∧ seriesGap b = 1e-12 := by
  have hcontinuous : Continuous seriesGap := by
    unfold seriesGap
    fun_prop
  have hlower := (abs_le.1 (abs_seriesGap_sub_le (θ := 3.3e-3) (by norm_num) (by norm_num))).2
  have hupper := (abs_le.1 (abs_seriesGap_sub_le (θ := 3.31e-3) (by norm_num) (by norm_num))).1
  have hbelow : seriesGap 3.3e-3 < 1e-12 := by
    norm_num at hlower ⊢
    linarith
  have habove : 1e-12 < seriesGap 3.31e-3 := by
    norm_num at hupper ⊢
    linarith
  obtain ⟨b, ⟨hb₀, hb₁⟩, hb⟩ :=
    intermediate_value_Ioo (by norm_num) hcontinuous.continuousOn ⟨hbelow, habove⟩
  exact ⟨b, hb₀, hb₁, hb⟩

/-- The angle at which the series is off by `1e-12`; the difference grows, so there is no other. -/
noncomputable def seriesReach : ℝ := exists_seriesGap_eq.choose

theorem lt_seriesReach : 3.3e-3 < seriesReach := exists_seriesGap_eq.choose_spec.1

theorem seriesReach_lt : seriesReach < 3.31e-3 := exists_seriesGap_eq.choose_spec.2.1

theorem seriesGap_seriesReach : seriesGap seriesReach = 1e-12 := exists_seriesGap_eq.choose_spec.2.2

/-! ### Where `sinc` is the quotient -/

theorem sinc_zero : sinc (0 : ℝ) = 1 := by
  rw [sinc_of_lt (by norm_num)]
  norm_num

theorem abs_sinc_sub_of_lt (h : θ < 1e-13) (h₀ : θ ≠ 0) :
    |sinc θ - Real.sin θ / θ| = seriesGap |θ| := by
  rw [sinc_of_lt h, ← Real.sinc_of_ne_zero h₀, abs_sub_comm]
  change |seriesGap θ| = _
  rw [← seriesGap_abs, abs_of_nonneg (seriesGap_nonneg (abs_pos.2 h₀))]

/-- **Where `sinc` is `sin θ / θ`** up to `1e-12`: above the cutoff it is, and below it as far as the
series reaches. -/
theorem abs_sinc_sub_le_iff (h₀ : θ ≠ 0) :
    |sinc θ - Real.sin θ / θ| ≤ 1e-12 ↔ -seriesReach ≤ θ := by
  have hreach : (1e-13 : ℝ) < seriesReach := lt_trans (by norm_num) lt_seriesReach
  have hpos : 0 < seriesReach := lt_trans (by norm_num) hreach
  by_cases hcut : (1e-13 : ℝ) ≤ θ
  · have hθ : 0 < θ := lt_of_lt_of_le (by norm_num) hcut
    rw [sinc_of_le hcut, sub_self, abs_zero]
    exact iff_of_true (by norm_num) (by linarith)
  · have hlt := not_le.1 hcut
    rw [abs_sinc_sub_of_lt hlt h₀, ← seriesGap_seriesReach,
      strictMonoOn_seriesGap.le_iff_le (abs_pos.2 h₀) hpos, abs_le]
    exact and_iff_left (hlt.trans hreach).le

/-! ### The series of `θ / sin θ` -/

theorem cscSeries_neg (θ : ℝ) : cscSeries (-θ) = cscSeries θ := by
  rw [cscSeries_eq, cscSeries_eq]
  ring

theorem abs_cscSeries_mul_sin_sub_le (h₀ : 0 < θ) (h₁ : θ ≤ 1) :
    |cscSeries θ * Real.sin θ - θ| ≤ θ ^ 9 / 2 := by
  have hsine := abs_sin_sub_seventh_le (θ := θ) (by rwa [abs_of_pos h₀])
  rw [abs_of_pos h₀] at hsine
  set expansion := θ - θ ^ 3 / 6 + θ ^ 5 / 120 - θ ^ 7 / 5040 with hexpansion
  obtain ⟨hlower, hupper⟩ := cscSeries_mem (φ := θ) (pow_le_one₀ h₀.le h₁)
  have hsq : θ ^ 2 ≤ 1 := pow_le_one₀ h₀.le h₁
  have hfour : θ ^ 4 ≤ 1 := pow_le_one₀ h₀.le h₁
  have hsq₀ : 0 ≤ θ ^ 2 := sq_nonneg θ
  have hfour₀ : 0 ≤ θ ^ 4 := by positivity
  have hnine : 0 ≤ θ ^ 9 := by positivity
  have hproduct : cscSeries θ * expansion - θ =
      θ ^ 9 * (-(193 / 907200) + 1 / 75600 * θ ^ 2 - 31 / 76204800 * θ ^ 4) := by
    rw [cscSeries_eq, hexpansion]
    ring
  have hexact : |cscSeries θ * expansion - θ| ≤ θ ^ 9 * (1 / 4) := by
    rw [hproduct, abs_mul, abs_of_nonneg hnine]
    refine mul_le_mul_of_nonneg_left (abs_le.2 ⟨?_, ?_⟩) hnine <;> linarith
  have hrest : |cscSeries θ * (Real.sin θ - expansion)| ≤ 2 * (θ ^ 9 / 326592) := by
    rw [abs_mul, abs_of_nonneg (zero_le_one.trans hlower)]
    exact mul_le_mul (by linarith) hsine (abs_nonneg _) zero_le_two
  calc |cscSeries θ * Real.sin θ - θ|
      = |(cscSeries θ * expansion - θ) + cscSeries θ * (Real.sin θ - expansion)| := by
        congr 1
        ring
    _ ≤ θ ^ 9 * (1 / 4) + 2 * (θ ^ 9 / 326592) := (abs_add_le _ _).trans (add_le_add hexact hrest)
    _ ≤ θ ^ 9 / 2 := by linarith

/-- **The series is near `θ / sin θ`** on both sides of zero. -/
theorem abs_cscSeries_sub_le (h₀ : θ ≠ 0) (h₁ : |θ| ≤ 1) :
    |cscSeries θ - θ / Real.sin θ| ≤ θ ^ 8 := by
  wlog hpos : 0 < θ generalizing θ
  · have hneg : 0 < -θ := neg_pos.2 (lt_of_le_of_ne (not_lt.1 hpos) h₀)
    have hopposite := this (neg_ne_zero.2 h₀) (by rwa [abs_neg]) hneg
    rwa [cscSeries_neg, Real.sin_neg, neg_div_neg_eq, Even.neg_pow (by decide)] at hopposite
  rw [abs_of_pos hpos] at h₁
  have hdouble := le_two_mul_sin hpos.le (h₁.trans (by linarith [Real.pi_gt_three]))
  have hsin : 0 < Real.sin θ := by linarith
  have hquotient : cscSeries θ - θ / Real.sin θ = (cscSeries θ * Real.sin θ - θ) / Real.sin θ := by
    field_simp
  rw [hquotient, abs_div, abs_of_pos hsin, div_le_iff₀ hsin]
  calc |cscSeries θ * Real.sin θ - θ| ≤ θ ^ 9 / 2 := abs_cscSeries_mul_sin_sub_le hpos h₁
    _ = θ ^ 8 * (θ / 2) := by ring
    _ ≤ θ ^ 8 * Real.sin θ := by gcongr; linarith

/-! ### Both -/

/-- **The two quotients of the sine.**  `sinc` is 1 at zero, and for every other angle it is within
`1e-12` of `sin θ / θ` just when the angle is at least `-seriesReach`, which is between `-3.31e-3` and
`-3.3e-3`.  The series of `θ / sin θ` is 1 at zero and within `θ⁸` of it for all other angles of at most
one radian. -/
theorem sine_quotients (θ : ℝ) (h₀ : θ ≠ 0) :
    (sinc (0 : ℝ) = 1 ∧ (|sinc θ - Real.sin θ / θ| ≤ 1e-12 ↔ -seriesReach ≤ θ) ∧
      3.3e-3 < seriesReach ∧ seriesReach < 3.31e-3) ∧
    cscSeries (0 : ℝ) = 1 ∧ (|θ| ≤ 1 → |cscSeries θ - θ / Real.sin θ| ≤ θ ^ 8) := by
  have hcsc : cscSeries (0 : ℝ) = 1 := by
    rw [cscSeries_eq]
    norm_num
  exact ⟨⟨sinc_zero, abs_sinc_sub_le_iff h₀, lt_seriesReach, seriesReach_lt⟩, hcsc,
    abs_cscSeries_sub_le h₀⟩

/-- Three thousandths of a radian below zero, and one radian below it. -/
theorem sine_quotients_below_zero :
    ((-3e-3 : ℝ) ≠ 0 ∧ (-1 : ℝ) ≠ 0 ∧ |(-1 : ℝ)| ≤ 1) ∧
      |sinc (-3e-3) - Real.sin (-3e-3) / -3e-3| ≤ 1e-12 ∧ 1e-12 < |sinc (-1) - Real.sin (-1) / -1| ∧
      |cscSeries (-1) - -1 / Real.sin (-1)| ≤ (-1) ^ 8 := by
  have hsmall : (-3e-3 : ℝ) ≠ 0 := by norm_num
  have hone : (-1 : ℝ) ≠ 0 := by norm_num
  have hle : |(-1 : ℝ)| ≤ 1 := by norm_num
  obtain ⟨⟨-, hnear, hlower, -⟩, -, -⟩ := sine_quotients (-3e-3) hsmall
  obtain ⟨⟨-, hfar, -, hupper⟩, -, hcsc⟩ := sine_quotients (-1) hone
  refine ⟨⟨hsmall, hone, hle⟩, hnear.2 ?_, not_le.1 fun h => ?_, hcsc hle⟩
  · norm_num at hlower ⊢
    linarith
  · have hreach := hfar.1 h
    norm_num at hupper
    linarith

/-- **`sinc` is not `sin θ / θ` on the whole line**: at -3 it is -0.5, and the quotient is positive. -/
theorem sinc_off_below_zero :
    (-3 : ℝ) ≠ 0 ∧ sinc (-3 : ℝ) = -(1 / 2) ∧ 1e-12 < |sinc (-3 : ℝ) - Real.sin (-3) / -3| := by
  have hvalue : sinc (-3 : ℝ) = -(1 / 2) := by
    rw [sinc_of_lt (by norm_num)]
    norm_num
  have hsin : 0 < Real.sin 3 := Real.sin_pos_of_pos_of_lt_pi (by norm_num) Real.pi_gt_three
  refine ⟨by norm_num, hvalue, ?_⟩
  rw [hvalue, Real.sin_neg, neg_div_neg_eq, abs_sub_comm]
  refine lt_of_lt_of_le ?_ (le_abs_self _)
  norm_num
  linarith

end Rotation

end PoseFilter
