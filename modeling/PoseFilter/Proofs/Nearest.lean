import PoseFilter.Proofs.Doubles

/-!
# Rounding to nearest

The operations on doubles compute with more bits than they keep: what is left over is remembered in two
residual bits, and the mantissa is rounded to 53 bits at the end.  In terms of numbers the result is
*nearest*: it is off by half a unit in the last place at most (`Doubles.Nearest`).

* `Doubles.Describes` : what the residual bits say of the number behind a mantissa; shifting keeps it
  true, and the rounded mantissa is at most one half away from the number.
* `Doubles.roundWithAccuracy_eq` : rounding shifts to the target exponent, rounds, and shifts a carry
  out.
* `Doubles.nearest_add`, `Doubles.nearest_sub`, `Doubles.nearest_mul`, `Doubles.nearest_div` : what the
  operations make of finite doubles is nearest to what they make of the numbers, before it is packed.
-/

namespace PoseFilter

namespace Doubles

open Float.Model Float.Model.UnpackedFloat

/-! ### Residual bits -/

/-- What the residual bits of a mantissa say of the number behind it: whether it lies on the mantissa,
below the middle of the gap above it, on the middle or beyond. -/
def Describes : ExtendedMantissa → ℚ → Prop
  | ⟨m, false, false⟩, x => x = m
  | ⟨m, false, true⟩, x => m < x ∧ x < m + 1 / 2
  | ⟨m, true, false⟩, x => x = m + 1 / 2
  | ⟨m, true, true⟩, x => m + 1 / 2 < x ∧ x < m + 1

section Bits

variable {em : ExtendedMantissa} {x : ℚ}

/-- Shifting by one bit halves the number, and the bits still say all that rounding needs. -/
theorem Describes.shiftRightOne (h : Describes em x) : Describes em.shiftRightOne (x / 2) := by
  obtain ⟨m, roundBit, stickyBit⟩ := em
  obtain ⟨q, rfl | rfl⟩ : ∃ q, m = 2 * q ∨ m = 2 * q + 1 := ⟨m / 2, by omega⟩
  · -- the number stays in the lower half of the gap
    have hshift : (ExtendedMantissa.mk (2 * q) roundBit stickyBit).shiftRightOne =
        ⟨q, false, roundBit || stickyBit⟩ := by
      simp [ExtendedMantissa.shiftRightOne]
    rw [hshift]
    cases roundBit <;> cases stickyBit <;> simp only [Describes, Bool.or_self, Bool.or_true,
      Bool.true_or, Nat.cast_mul, Nat.cast_ofNat] at h ⊢
    · linarith
    · exact ⟨by linarith, by linarith⟩
    · exact ⟨by linarith, by linarith⟩
    · exact ⟨by linarith, by linarith⟩
  · have hshift : (ExtendedMantissa.mk (2 * q + 1) roundBit stickyBit).shiftRightOne =
        ⟨q, true, roundBit || stickyBit⟩ := by
      have hhalf : (2 * q + 1) / 2 = q := by omega
      simp [ExtendedMantissa.shiftRightOne, hhalf]
    rw [hshift]
    cases roundBit <;> cases stickyBit <;> simp only [Describes, Bool.or_self, Bool.or_true,
      Bool.true_or, Nat.cast_add, Nat.cast_mul, Nat.cast_ofNat, Nat.cast_one] at h ⊢
    · linarith
    · exact ⟨by linarith, by linarith⟩
    · exact ⟨by linarith, by linarith⟩
    · exact ⟨by linarith, by linarith⟩

theorem Describes.shiftRight (h : Describes em x) (k : Nat) : Describes (em >>> k) (x / 2 ^ k) := by
  induction k with
  | zero =>
    rw [pow_zero, div_one]
    exact h
  | succ k ih =>
    rw [pow_succ, ← div_div]
    exact ih.shiftRightOne

theorem Describes.bounds (h : Describes em x) : (em.mantissa : ℚ) ≤ x ∧ x < em.mantissa + 1 := by
  obtain ⟨m, roundBit, stickyBit⟩ := em
  cases roundBit <;> cases stickyBit <;> simp only [Describes] at h ⊢ <;>
    exact ⟨by linarith, by linarith⟩

/-- **The rounded mantissa is nearest.** -/
theorem Describes.abs_roundedMantissa_sub_le (h : Describes em x) :
    |(em.roundedMantissa : ℚ) - x| ≤ 1 / 2 := by
  obtain ⟨m, roundBit, stickyBit⟩ := em
  rw [abs_le]
  cases roundBit <;> cases stickyBit <;> simp only [Describes] at h
  · have hrounded : (ExtendedMantissa.mk m false false).roundedMantissa = m := rfl
    rw [hrounded]
    constructor <;> linarith
  · have hrounded : (ExtendedMantissa.mk m false true).roundedMantissa = m := rfl
    rw [hrounded]
    constructor <;> linarith
  · -- a tie goes to the even neighbour, which is as near as the other
    have hrounded : (ExtendedMantissa.mk m true false).roundedMantissa = m + m % 2 := rfl
    have hparity : ((m % 2 : ℕ) : ℚ) = 0 ∨ ((m % 2 : ℕ) : ℚ) = 1 := by
      rcases Nat.mod_two_eq_zero_or_one m with hmod | hmod <;> simp [hmod]
    rw [hrounded, Nat.cast_add]
    rcases hparity with hmod | hmod <;> rw [hmod] <;> constructor <;> linarith
  · have hrounded : (ExtendedMantissa.mk m true true).roundedMantissa = m + 1 := rfl
    rw [hrounded, Nat.cast_add, Nat.cast_one]
    constructor <;> linarith

theorem roundedMantissa_bounds (em : ExtendedMantissa) :
    em.mantissa ≤ em.roundedMantissa ∧ em.roundedMantissa ≤ em.mantissa + 1 := by
  obtain ⟨m, roundBit, stickyBit⟩ := em
  cases roundBit <;> cases stickyBit <;>
    simp only [ExtendedMantissa.roundedMantissa, ExtendedMantissa.accuracy,
      Accuracy.roundToNearestEven] <;> omega

theorem describes_exact (m : Nat) : Describes (.ofMantissaAndAccuracy m .exact) m := rfl

theorem describes_fraction {num den : Nat} (h : num < den) (m : Nat) :
    Describes (.ofMantissaAndAccuracy m (accuracyOfFraction num den)) (m + num / den) := by
  have hden : (0 : ℚ) < den := by exact_mod_cast (Nat.zero_le num).trans_lt h
  have hlt : (num : ℚ) / den < 1 := (div_lt_one hden).2 (by exact_mod_cast h)
  unfold accuracyOfFraction
  split_ifs with hzero
  · rw [hzero, Nat.cast_zero, zero_div, add_zero]
    exact describes_exact m
  · have hpos : (0 : ℚ) < num / den := div_pos (by exact_mod_cast Nat.pos_of_ne_zero hzero) hden
    rcases lt_trichotomy (2 * num) den with hhalf | hhalf | hhalf
    · have hlow : (num : ℚ) / den < 1 / 2 := by
        rw [div_lt_div_iff₀ hden two_pos]
        exact_mod_cast (by omega : num * 2 < 1 * den)
      rw [Nat.compare_eq_lt.2 hhalf]
      exact ⟨by linarith, by linarith⟩
    · have hmid : (num : ℚ) / den = 1 / 2 := by
        rw [div_eq_div_iff hden.ne' two_ne_zero]
        exact_mod_cast (by omega : num * 2 = 1 * den)
      rw [Nat.compare_eq_eq.2 hhalf, hmid]
      exact rfl
    · have hhigh : 1 / 2 < (num : ℚ) / den := by
        rw [div_lt_div_iff₀ two_pos hden]
        exact_mod_cast (by omega : 1 * den < num * 2)
      rw [Nat.compare_eq_gt.2 hhalf]
      exact ⟨by linarith, by linarith⟩

end Bits

/-! ### Shifting and rounding -/

theorem mantissa_shiftRight (em : ExtendedMantissa) (k : Nat) :
    (em >>> k).mantissa = em.mantissa / 2 ^ k := by
  induction k with
  | zero => exact (Nat.div_one _).symm
  | succ k ih =>
    change (em >>> k).mantissa / 2 = _
    rw [ih, Nat.div_div_eq_div_mul, Nat.pow_succ]

theorem mantissa_ofMantissaAndAccuracy (m : Nat) (accuracy : Accuracy) :
    (ExtendedMantissa.ofMantissaAndAccuracy m accuracy).mantissa = m := by
  cases accuracy with
  | exact => rfl
  | inexact o => cases o <;> rfl

/-- The exponent that a number is rounded to: 53 bits are kept, down to the least exponent. -/
def target (m : Nat) (e : Int) : Int := max ((m.log2 : Int) + e - 52) (-1074)

theorem targetExponent_eq (m : Nat) (e : Int) :
    Format.binary64.targetExponent (totalExponent m e) = target m e := by
  change max ((m.log2 : Int) + 1 + e - 53) (-1074) = max ((m.log2 : Int) + e - 52) (-1074)
  congr 1
  omega

theorem shifted_bounds {m : Nat} {e : Int} (he : e ≤ target m e) :
    m / 2 ^ (target m e - e).toNat < 2 ^ 53 ∧
      (2 ^ 52 ≤ m / 2 ^ (target m e - e).toNat ∨ target m e = -1074) := by
  have htarget : target m e = max ((m.log2 : Int) + e - 52) (-1074) := rfl
  constructor
  · rw [Nat.div_lt_iff_lt_mul (Nat.two_pow_pos _), ← Nat.pow_add]
    calc m < 2 ^ (m.log2 + 1) := Nat.lt_log2_self
      _ ≤ 2 ^ (53 + (target m e - e).toNat) := Nat.pow_le_pow_right two_pos (by omega)
  · by_cases hleast : target m e = -1074
    · exact .inr hleast
    · refine .inl ?_
      rcases Nat.eq_zero_or_pos m with rfl | hm
      · have hlog : Nat.log2 0 = 0 := rfl
        omega
      · rw [Nat.le_div_iff_mul_le (Nat.two_pow_pos _), ← Nat.pow_add]
        calc 2 ^ (52 + (target m e - e).toNat) ≤ 2 ^ m.log2 :=
              Nat.pow_le_pow_right two_pos (by omega)
          _ ≤ m := Nat.log2_self_le hm.ne'

/-- The double of a mantissa, which may be zero, and an exponent. -/
def ofParts (s : Sign) (m : Nat) (e : Int) : UnpackedFloat :=
  if h : m = 0 then .zero s else .finite s m e (Nat.pos_of_ne_zero h)

/-- The double of a rounded mantissa: a carry out of 53 bits moves to the next exponent. -/
def carried (s : Sign) (r : Nat) (e : Int) : UnpackedFloat :=
  if r < 2 ^ 53 then ofParts s r e else ofParts s (2 ^ 52) (e + 1)

/-- After rounding, only a carry is left to be shifted out. -/
theorem shiftToTargetExponent_rounded {r : Nat} {t : Int} (hr : r ≤ 2 ^ 53) (ht : -1074 ≤ t)
    (s : Sign) :
    ofParts s (shiftToTargetExponent Format.binary64 r t .exact).1.mantissa
      (shiftToTargetExponent Format.binary64 r t .exact).2 = carried s r t := by
  simp only [shiftToTargetExponent, shiftToExponent, targetExponent_eq, mantissa_shiftRight,
    mantissa_ofMantissaAndAccuracy]
  rw [carried]
  by_cases hfits : r < 2 ^ 53
  · have hstay : (target r t - t).toNat = 0 := by
      have hlog : r.log2 < 53 := by
        rcases Nat.eq_zero_or_pos r with rfl | hpos
        · decide
        · exact (Nat.log2_lt hpos.ne').2 hfits
      rw [target]
      omega
    rw [hstay, if_pos hfits, pow_zero, Nat.div_one, Nat.cast_zero, add_zero]
  · have hcarry : r = 2 ^ 53 := by omega
    have hone : (target r t - t).toNat = 1 := by
      have hlog : Nat.log2 (2 ^ 53) = 53 := Nat.log2_two_pow
      rw [target, hcarry, hlog]
      omega
    rw [hone, if_neg hfits, hcarry]
    rfl

/-- **Rounding in two steps**: the mantissa is shifted to its target and rounded, and a carry is
shifted out. -/
theorem roundWithAccuracy_eq {m : Nat} {e : Int} (he : e ≤ target m e) (s : Sign)
    (accuracy : Accuracy) :
    roundWithAccuracy Format.binary64 s m e accuracy =
      carried s (ExtendedMantissa.ofMantissaAndAccuracy m accuracy >>>
        (target m e - e).toNat).roundedMantissa (target m e) := by
  have hle := (roundedMantissa_bounds (ExtendedMantissa.ofMantissaAndAccuracy m accuracy >>>
    (target m e - e).toNat)).2
  rw [mantissa_shiftRight, mantissa_ofMantissaAndAccuracy] at hle
  have hexp : e + ((target m e - e).toNat : Int) = target m e := by omega
  have hround : roundWithAccuracy Format.binary64 s m e accuracy =
      ofParts s (shiftToTargetExponent Format.binary64
        (shiftToTargetExponent Format.binary64 m e accuracy).1.roundedMantissa
        (shiftToTargetExponent Format.binary64 m e accuracy).2 .exact).1.mantissa
        (shiftToTargetExponent Format.binary64
        (shiftToTargetExponent Format.binary64 m e accuracy).1.roundedMantissa
        (shiftToTargetExponent Format.binary64 m e accuracy).2 .exact).2 := rfl
  have hfirst : shiftToTargetExponent Format.binary64 m e accuracy =
      (ExtendedMantissa.ofMantissaAndAccuracy m accuracy >>> (target m e - e).toNat,
        target m e) := by
    rw [shiftToTargetExponent, shiftToExponent, targetExponent_eq, hexp]
  rw [hround, hfirst]
  exact shiftToTargetExponent_rounded (hle.trans (shifted_bounds he).1) (le_max_right _ _) s

/-! ### The number that is rounded to -/

/-- The sign of a number, as a factor. -/
def sign : Sign → ℚ
  | .negative => -1
  | .positive => 1

theorem value_finite (s : Sign) {m : Nat} {e : Int} (hm : 0 < m) :
    value (.finite s m e hm) = sign s * (m * 2 ^ e) := by
  cases s with
  | negative => rw [value_negative, sign, neg_one_mul]
  | positive => rw [value_positive, sign, one_mul]

theorem value_ofParts (s : Sign) (m : Nat) (e : Int) : value (ofParts s m e) = sign s * (m * 2 ^ e) := by
  unfold ofParts
  split_ifs with h
  · rw [h, Nat.cast_zero, zero_mul, mul_zero]
    rfl
  · exact value_finite s _

theorem value_carried {r : Nat} (hr : r ≤ 2 ^ 53) (s : Sign) (e : Int) :
    value (carried s r e) = sign s * (r * 2 ^ e) := by
  unfold carried
  split_ifs with h
  · exact value_ofParts s r e
  · have hcarry : r = 2 ^ 53 := by omega
    rw [value_ofParts, hcarry, zpow_add_one₀ two_ne_zero]
    push_cast
    ring

/-- Finite and in canonical form, which the infinities and what is undefined are not. -/
def Proper (u : UnpackedFloat) : Prop := Canonical u ∧ u.isFinite = true

theorem proper_zero (s : Sign) : Proper (.zero s) := ⟨trivial, rfl⟩

theorem proper_ofParts {m : Nat} {e : Int} (hlt : m < 2 ^ 53) (he : -1074 ≤ e)
    (h : 2 ^ 52 ≤ m ∨ e = -1074) (s : Sign) : Proper (ofParts s m e) := by
  unfold ofParts
  split_ifs
  · exact proper_zero s
  · exact ⟨⟨hlt, he, h⟩, rfl⟩

theorem proper_carried {r : Nat} {e : Int} (he : -1074 ≤ e) (h : 2 ^ 52 ≤ r ∨ e = -1074)
    (s : Sign) : Proper (carried s r e) := by
  unfold carried
  split_ifs with hlt
  · exact proper_ofParts hlt he h s
  · exact proper_ofParts (by decide) (by omega) (.inl le_rfl) s

/-- What a number may be off by when it is rounded: half a unit in the last place, which is relative
to the number down to the least exponent and absolute there. -/
def halfUnit (x : ℚ) : ℚ := max (|x| / 2 ^ 53) (1 / 2 ^ 1075)

/-- `u` is a proper double that is nearest to `x`, before it is packed. -/
structure Nearest (x : ℚ) (u : UnpackedFloat) : Prop where
  proper : Proper u
  close : |value u - x| ≤ halfUnit x

theorem half_two_zpow_target_le {m : Nat} {e : Int} (he : e ≤ target m e) {x : ℚ}
    (hx : (m : ℚ) ≤ x) : 2 ^ target m e / 2 ≤ halfUnit (x * 2 ^ e) := by
  have hhalf : ∀ k : Int, (2 : ℚ) ^ k / 2 = 2 ^ (k - 1) := fun k => by
    rw [zpow_sub_one₀ two_ne_zero, div_eq_mul_inv]
  rw [hhalf]
  by_cases hleast : target m e = -1074
  · refine le_max_of_le_right (le_of_eq ?_)
    rw [hleast, one_div, ← zpow_natCast, ← zpow_neg]
    norm_num
  · -- above the least exponent the number fills its 53 bits
    have htarget : target m e = max ((m.log2 : Int) + e - 52) (-1074) := rfl
    have hm : 0 < m := by
      rcases Nat.eq_zero_or_pos m with rfl | hm
      · have hlog : Nat.log2 0 = 0 := rfl
        omega
      · exact hm
    have hlog : (2 : ℚ) ^ m.log2 ≤ x := le_trans (by exact_mod_cast Nat.log2_self_le hm.ne') hx
    refine le_max_of_le_left ?_
    have hnonneg : 0 ≤ x * 2 ^ e :=
      mul_nonneg ((pow_nonneg zero_le_two _).trans hlog) (zpow_nonneg zero_le_two _)
    rw [abs_of_nonneg hnonneg, le_div_iff₀ (by positivity)]
    calc (2 : ℚ) ^ (target m e - 1) * 2 ^ 53 = 2 ^ m.log2 * 2 ^ e := by
          rw [← zpow_natCast, ← zpow_natCast, ← zpow_add₀ two_ne_zero, ← zpow_add₀ two_ne_zero]
          congr 1
          push_cast
          omega
      _ ≤ x * 2 ^ e := mul_le_mul_of_nonneg_right hlog (zpow_nonneg zero_le_two _)

theorem abs_sign (s : Sign) : |sign s| = 1 := by
  cases s <;> simp [sign]

/-- **Rounding is to nearest.** -/
theorem nearest_roundWithAccuracy {m : Nat} {e : Int} {accuracy : Accuracy} {x : ℚ}
    (hx : Describes (.ofMantissaAndAccuracy m accuracy) x) (he : e ≤ target m e) (s : Sign) :
    Nearest (sign s * (x * 2 ^ e)) (roundWithAccuracy Format.binary64 s m e accuracy) := by
  have hrounded := (hx.shiftRight (target m e - e).toNat).abs_roundedMantissa_sub_le
  have hbounds := roundedMantissa_bounds (ExtendedMantissa.ofMantissaAndAccuracy m accuracy >>>
    (target m e - e).toNat)
  have hm : (m : ℚ) ≤ x := by
    have h := hx.bounds.1
    rwa [mantissa_ofMantissaAndAccuracy] at h
  obtain ⟨hlt, hfull⟩ := shifted_bounds he
  rw [mantissa_shiftRight, mantissa_ofMantissaAndAccuracy] at hbounds
  rw [roundWithAccuracy_eq he]
  set r := (ExtendedMantissa.ofMantissaAndAccuracy m accuracy >>>
    (target m e - e).toNat).roundedMantissa
  have hpow : (2 : ℚ) ^ target m e = 2 ^ e * 2 ^ (target m e - e).toNat := by
    rw [← zpow_natCast, ← zpow_add₀ two_ne_zero]
    congr 1
    omega
  -- shifting does not change the number, so the rounding of the mantissa is all that errs
  have hexact : x * 2 ^ e = x / 2 ^ (target m e - e).toNat * 2 ^ target m e := by
    rw [hpow, div_mul_eq_mul_div, mul_comm ((2 : ℚ) ^ e), ← mul_assoc, mul_div_right_comm,
      mul_div_cancel_right₀ _ (by positivity)]
  refine ⟨proper_carried (le_max_right _ _) ?_ s, ?_⟩
  · rcases hfull with hfull | hleast
    · exact .inl (by omega)
    · exact .inr hleast
  · have herror : |(r : ℚ) * 2 ^ target m e - x * 2 ^ e| ≤ 2 ^ target m e / 2 := by
      have hpos : (0 : ℚ) < 2 ^ target m e := zpow_pos two_pos _
      rw [hexact, ← sub_mul, abs_mul, abs_of_pos hpos]
      calc |(r : ℚ) - x / 2 ^ (target m e - e).toNat| * 2 ^ target m e
          ≤ 1 / 2 * 2 ^ target m e :=
            mul_le_mul_of_nonneg_right hrounded (zpow_nonneg zero_le_two _)
        _ = 2 ^ target m e / 2 := by ring
    have habs : halfUnit (sign s * (x * 2 ^ e)) = halfUnit (x * 2 ^ e) := by
      rw [halfUnit, halfUnit, abs_mul, abs_sign, one_mul]
    rw [value_carried (by omega), ← mul_sub, abs_mul, abs_sign, one_mul, habs]
    exact herror.trans (half_two_zpow_target_le he hm)

/-! ### Operations -/

theorem halfUnit_nonneg (x : ℚ) : 0 ≤ halfUnit x :=
  le_max_of_le_right (by positivity)

theorem halfUnit_of_le {x : ℚ} (hx : 1 / 2 ^ 1000 ≤ |x|) : halfUnit x = |x| / 2 ^ 53 := by
  refine max_eq_left ?_
  calc (1 : ℚ) / 2 ^ 1075 ≤ 1 / 2 ^ 1053 :=
        one_div_le_one_div_of_le (by positivity) (pow_le_pow_right₀ one_le_two (by norm_num))
    _ = 1 / 2 ^ 1000 / 2 ^ 53 := by rw [div_div, ← pow_add]
    _ ≤ |x| / 2 ^ 53 := by gcongr

theorem nearest_value {u : UnpackedFloat} (h : Proper u) : Nearest (value u) u :=
  ⟨h, by simpa using halfUnit_nonneg _⟩

theorem log2_shiftLeft {m : Nat} (hm : 0 < m) (k : Nat) : (m <<< k).log2 = m.log2 + k := by
  have hpos : 0 < m * 2 ^ k := Nat.mul_pos hm (Nat.two_pow_pos k)
  rw [Nat.shiftLeft_eq, Nat.log2_eq_iff hpos.ne', Nat.pow_add, Nat.add_right_comm, Nat.pow_add]
  exact ⟨Nat.mul_le_mul_right _ (Nat.log2_self_le hm.ne'),
    Nat.mul_lt_mul_of_pos_right Nat.lt_log2_self (Nat.two_pow_pos k)⟩

theorem target_decreaseExponent {m : Nat} (hm : 0 < m) {e t : Int} :
    target (decreaseExponent m e t).1 (decreaseExponent m e t).2 = target m e := by
  have hlog := log2_shiftLeft hm (e - t).toNat
  simp only [decreaseExponent, target, hlog]
  congr 1
  push_cast
  omega

theorem nearest_round {m : Nat} (hm : 0 < m) (e : Int) (s : Sign) :
    Nearest (sign s * (m * 2 ^ e)) (UnpackedFloat.round Format.binary64 s m e) := by
  have htarget := target_decreaseExponent hm (e := e) (t := target m e)
  have hround : UnpackedFloat.round Format.binary64 s m e = roundWithAccuracy Format.binary64 s
      (decreaseExponent m e (target m e)).1 (decreaseExponent m e (target m e)).2 .exact := by
    rw [← targetExponent_eq]
    rfl
  have hvalue : ((decreaseExponent m e (target m e)).1 : ℚ) *
      2 ^ (decreaseExponent m e (target m e)).2 = m * 2 ^ e := by
    simp only [decreaseExponent, Nat.shiftLeft_eq]
    rw [Nat.cast_mul, Nat.cast_pow, Nat.cast_ofNat, mul_assoc, ← zpow_natCast,
      ← zpow_add₀ two_ne_zero]
    congr 2
    omega
  rw [hround, ← hvalue]
  refine nearest_roundWithAccuracy (describes_exact _) ?_ s
  rw [htarget]
  simp only [decreaseExponent]
  omega

theorem nearest_normalize (m e : Int) (s : Sign) :
    Nearest (m * 2 ^ e) (UnpackedFloat.normalize Format.binary64 m e s) := by
  unfold UnpackedFloat.normalize
  rcases lt_trichotomy m 0 with hm | rfl | hm
  · have hcast : (m : ℚ) = -((-m).toNat : ℚ) := by
      have h : ((-m).toNat : Int) = -m := by omega
      have h' : (((-m).toNat : Int) : ℚ) = -(m : ℚ) := by rw [h, Int.cast_neg]
      rw [← Int.cast_natCast, h', neg_neg]
    have hnearest := nearest_round (m := (-m).toNat) (by omega) e .negative
    rw [Int.compare_eq_lt.2 hm, hcast]
    rwa [sign, neg_one_mul, ← neg_mul] at hnearest
  · rw [Int.compare_eq_eq.2 rfl, Int.cast_zero, zero_mul]
    exact nearest_value (proper_zero _)
  · have hcast : (m : ℚ) = (m.toNat : ℚ) := by
      have h : (m.toNat : Int) = m := by omega
      rw [← Int.cast_natCast, h]
    have hnearest := nearest_round (m := m.toNat) (by omega) e .positive
    rw [Int.compare_eq_gt.2 hm, hcast]
    simpa only [sign, one_mul] using hnearest

/-- **The sum of two doubles is nearest to the sum of their numbers.** -/
theorem nearest_add {u v : UnpackedFloat} (hu : Proper u) (hv : Proper v) :
    Nearest (value u + value v) (UnpackedFloat.add Format.binary64 u v) := by
  cases u with
  | infinity s => cases hu.2
  | notANumber => cases hu.2
  | zero s =>
    have hzero : value (.zero s) = 0 := rfl
    rw [hzero, zero_add]
    cases v with
    | infinity s' => cases hv.2
    | notANumber => cases hv.2
    | zero s' =>
      have hsum : ∃ s'', UnpackedFloat.add Format.binary64 (.zero s) (.zero s') = .zero s'' := by
        cases s <;> cases s' <;> exact ⟨_, rfl⟩
      obtain ⟨s'', hsum⟩ := hsum
      rw [hsum]
      exact nearest_value (proper_zero s'')
    | finite s' m e hm => exact nearest_value hv
  | finite s m e hm =>
    cases v with
    | infinity s' => cases hv.2
    | notANumber => cases hv.2
    | zero s' =>
      have hzero : value (.zero s') = 0 := rfl
      rw [hzero, add_zero]
      exact nearest_value hu
    | finite s' m' e' hm' =>
      rw [← shifted_value s (min_le_left e e') hm, ← shifted_value s' (min_le_right e e') hm',
        ← add_mul, ← Int.cast_add]
      exact nearest_normalize _ _ _

theorem unpacked_sub_eq (u v : UnpackedFloat) :
    UnpackedFloat.sub Format.binary64 u v = UnpackedFloat.add Format.binary64 u v.neg := by
  cases v with
  | notANumber => cases u <;> rfl
  | infinity s => cases u <;> rfl
  | zero s => cases u <;> rfl
  | finite s m e hm =>
    cases u with
    | finite s' m' e' hm' =>
      have happly : ∀ k : Nat, (-s).apply k = -s.apply k := by
        cases s with
        | positive => exact fun k => rfl
        | negative => exact fun k => (Int.neg_neg _).symm
      simp only [UnpackedFloat.sub, UnpackedFloat.add, UnpackedFloat.neg, happly, Int.sub_eq_add_neg]
    | _ => rfl

theorem value_neg (u : UnpackedFloat) : value u.neg = -value u := by
  cases u with
  | finite s m e hm =>
    cases s with
    | positive => exact (value_negative hm).trans (congrArg _ (value_positive hm).symm)
    | negative => exact (value_positive hm).trans (by rw [value_negative, neg_neg])
  | _ => exact neg_zero.symm

theorem Proper.neg {u : UnpackedFloat} (h : Proper u) : Proper u.neg := by
  cases u with
  | infinity s => cases h.2
  | notANumber => cases h.2
  | zero s => exact proper_zero _
  | finite s m e hm => exact ⟨h.1, rfl⟩

theorem nearest_sub {u v : UnpackedFloat} (hu : Proper u) (hv : Proper v) :
    Nearest (value u - value v) (UnpackedFloat.sub Format.binary64 u v) := by
  rw [unpacked_sub_eq, sub_eq_add_neg, ← value_neg]
  exact nearest_add hu hv.neg

theorem sign_mul : ∀ s s' : Sign, sign (s * s') = sign s * sign s'
  | .negative, .negative => show (1 : ℚ) = -1 * -1 by norm_num
  | .negative, .positive => show (-1 : ℚ) = -1 * 1 by norm_num
  | .positive, .negative => show (-1 : ℚ) = 1 * -1 by norm_num
  | .positive, .positive => show (1 : ℚ) = 1 * 1 by norm_num

theorem sign_div : ∀ s s' : Sign, sign (s / s') = sign s / sign s'
  | .negative, .negative => show (1 : ℚ) = -1 / -1 by norm_num
  | .negative, .positive => show (-1 : ℚ) = -1 / 1 by norm_num
  | .positive, .negative => show (-1 : ℚ) = 1 / -1 by norm_num
  | .positive, .positive => show (1 : ℚ) = 1 / 1 by norm_num

/-- The product is nearest to the product of the numbers where it does not have to be moved to a smaller
exponent. -/
theorem nearest_mul_finite (s s' : Sign) {m m' : Nat} {e e' : Int} (hm : 0 < m) (hm' : 0 < m')
    (he : e + e' ≤ target (m * m') (e + e')) :
    Nearest (value (.finite s m e hm) * value (.finite s' m' e' hm'))
      (UnpackedFloat.mul Format.binary64 (.finite s m e hm) (.finite s' m' e' hm')) := by
  have hproduct : value (.finite s m e hm) * value (.finite s' m' e' hm') =
      sign (s * s') * ((m * m' : ℕ) * 2 ^ (e + e')) := by
    rw [value_finite, value_finite, sign_mul, zpow_add₀ two_ne_zero, Nat.cast_mul]
    ring
  rw [hproduct]
  exact nearest_roundWithAccuracy (describes_exact _) he (s * s')

theorem le_target_mul {s s' : Sign} {m m' : Nat} {e e' : Int} {hm : 0 < m} {hm' : 0 < m'}
    (h : Canonical (.finite s m e hm)) (h' : Canonical (.finite s' m' e' hm')) :
    e + e' ≤ target (m * m') (e + e') := by
  have hlog : ∀ {a b : Nat}, 2 ^ 52 ≤ a → 0 < b → 52 ≤ (a * b).log2 := fun ha hb =>
    (Nat.le_log2 (Nat.mul_pos (by omega) hb).ne').2 (ha.trans (Nat.le_mul_of_pos_right _ hb))
  obtain ⟨-, hexp, hfull⟩ := h
  obtain ⟨-, hexp', hfull'⟩ := h'
  rw [target]
  rcases hfull with hfull | hfull
  · have hbits := hlog hfull hm'
    omega
  · rcases hfull' with hfull' | hfull'
    · have hbits := hlog hfull' hm
      rw [Nat.mul_comm] at hbits
      omega
    · omega

theorem nearest_mul {u v : UnpackedFloat} (hu : Proper u) (hv : Proper v) :
    Nearest (value u * value v) (UnpackedFloat.mul Format.binary64 u v) := by
  have hzero : ∀ s, value (.zero s) = 0 := fun _ => rfl
  cases u with
  | infinity s => cases hu.2
  | notANumber => cases hu.2
  | zero s =>
    rw [hzero, zero_mul]
    cases v with
    | infinity s' => cases hv.2
    | notANumber => cases hv.2
    | zero s' => exact nearest_value (proper_zero (s * s'))
    | finite s' m e hm => exact nearest_value (proper_zero (s * s'))
  | finite s m e hm =>
    cases v with
    | infinity s' => cases hv.2
    | notANumber => cases hv.2
    | zero s' =>
      rw [hzero, mul_zero]
      exact nearest_value (proper_zero (s * s'))
    | finite s' m' e' hm' => exact nearest_mul_finite s s' hm hm' (le_target_mul hu.1 hv.1)

theorem divCore_spec {m m' : Nat} {e e' : Int} (hm : 0 < m) (hm' : 0 < m') {q : Nat} {t : Int}
    {accuracy : Accuracy} (h : divCore Format.binary64 m e m' e' = (q, t, accuracy)) :
    t ≤ target q t ∧ ∃ x, Describes (.ofMantissaAndAccuracy q accuracy) x ∧
      x * 2 ^ t = m * 2 ^ e / (m' * 2 ^ e') := by
  have htarget : Format.binary64.targetExponent (totalExponent m e - totalExponent m' e') =
      max ((m.log2 : Int) + 1 + e - (m'.log2 + 1 + e') - 53) (-1074) := rfl
  unfold divCore at h
  dsimp only at h
  rw [htarget] at h
  generalize hleast : min (e - e')
    (max ((m.log2 : Int) + 1 + e - (m'.log2 + 1 + e') - 53) (-1074)) = least at h
  cases h
  refine ⟨?_, _, describes_fraction (Nat.mod_lt _ hm') _, ?_⟩
  · by_cases hlow : t ≤ -1074
    · exact hlow.trans (le_max_right _ _)
    · -- the quotient has as many bits as the shifted dividend has more than the divisor
      have hbits : 2 ^ 52 ≤ m <<< (e - e' - t).toNat / m' := by
        rw [Nat.le_div_iff_mul_le hm', Nat.shiftLeft_eq]
        calc 2 ^ 52 * m' ≤ 2 ^ 52 * 2 ^ (m'.log2 + 1) :=
              Nat.mul_le_mul_left _ Nat.lt_log2_self.le
          _ = 2 ^ (52 + (m'.log2 + 1)) := (Nat.pow_add _ _ _).symm
          _ ≤ 2 ^ (m.log2 + (e - e' - t).toNat) := Nat.pow_le_pow_right two_pos (by omega)
          _ = 2 ^ m.log2 * 2 ^ (e - e' - t).toNat := Nat.pow_add _ _ _
          _ ≤ m * 2 ^ (e - e' - t).toNat :=
              Nat.mul_le_mul_right _ (Nat.log2_self_le hm.ne')
      have hlog := (Nat.le_log2 (lt_of_lt_of_le (Nat.two_pow_pos _) hbits).ne').2 hbits
      rw [target]
      omega
  · have hden : (m' : ℚ) ≠ 0 := by exact_mod_cast hm'.ne'
    have hquotient : ((m <<< (e - e' - t).toNat / m' : ℕ) : ℚ) +
        ((m <<< (e - e' - t).toNat % m' : ℕ) : ℚ) / m' =
          m * 2 ^ (e - e' - t).toNat / m' := by
      have hdivision := Nat.div_add_mod (m <<< (e - e' - t).toNat) m'
      have hcast : ((m' : ℚ) * (m <<< (e - e' - t).toNat / m' : ℕ)) +
          (m <<< (e - e' - t).toNat % m' : ℕ) = m * 2 ^ (e - e' - t).toNat := by
        rw [← Nat.cast_mul, ← Nat.cast_add, hdivision, Nat.shiftLeft_eq]
        push_cast
        rfl
      rw [← hcast]
      field_simp
    have hexp : ((e - e' - t).toNat : Int) + t + e' = e := by omega
    have hpow : (2 : ℚ) ^ e = 2 ^ (e - e' - t).toNat * 2 ^ t * 2 ^ e' := by
      rw [← zpow_natCast, ← zpow_add₀ two_ne_zero, ← zpow_add₀ two_ne_zero, hexp]
    rw [hquotient, eq_div_iff (mul_ne_zero hden (zpow_ne_zero _ two_ne_zero)), hpow]
    field_simp

theorem nearest_div {u v : UnpackedFloat} (hu : Proper u) (hv : Proper v) (hzero : value v ≠ 0) :
    Nearest (value u / value v) (UnpackedFloat.div Format.binary64 u v) := by
  cases v with
  | infinity s => cases hv.2
  | notANumber => cases hv.2
  | zero s => exact absurd rfl hzero
  | finite s' m' e' hm' =>
    cases u with
    | infinity s => cases hu.2
    | notANumber => cases hu.2
    | zero s =>
      have hvalue : value (.zero s) = 0 := rfl
      rw [hvalue, zero_div]
      exact nearest_value (proper_zero (s / s'))
    | finite s m e hm =>
      rcases hcore : divCore Format.binary64 m e m' e' with ⟨q, t, accuracy⟩
      obtain ⟨ht, x, hx, hquotient⟩ := divCore_spec hm hm' hcore
      have hsign : value (.finite s m e hm) / value (.finite s' m' e' hm') =
          sign (s / s') * (x * 2 ^ t) := by
        rw [value_finite, value_finite, sign_div, hquotient, mul_div_mul_comm]
      rw [hsign]
      simp only [UnpackedFloat.div, hcore]
      exact nearest_roundWithAccuracy hx ht (s / s')

end Doubles

end PoseFilter
