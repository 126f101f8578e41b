import PoseFilter.Proofs.Nearest

/-!
# Rounding in doubles

What is rounded to nearest and then packed into 64 bits is off by half a unit in the last place at
most, unless it exceeds the largest double and becomes infinite (`Doubles.Rounded`).  The sums,
differences, products and quotients of finite doubles are of this kind; a natural number is rounded
twice at most.

Two facts follow for the rates of sensors: one over a finite double is far above the least positive one
(`Doubles.one_div_pos`), and one times it is still positive (`Doubles.one_mul_pos`).  On the other side,
the multiples of a period pass every finite double, as the numbers themselves round to infinity in the
end (`Doubles.exists_multiple_not_le`).
-/

namespace PoseFilter

namespace Doubles

open Float.Model Float.Model.UnpackedFloat

/-! ### Packing -/

theorem finite_congr {s : Sign} {m m' : Nat} {e e' : Int} {hm : 0 < m} {hm' : 0 < m'} (h : m = m')
    (he : e = e') : UnpackedFloat.finite s m e hm = .finite s m' e' hm' := by
  subst h he
  rfl

theorem unpack_packComponents {s : Sign} {exponent : BitVec 11} {mantissa : BitVec 52}
    (hfinite : exponent ≠ -1#11) :
    unpack Format.binary64 (packComponents Format.binary64 s exponent mantissa) =
      if exponent = 0#11 then ofParts s mantissa.toNat (-1074)
      else ofParts s (2 ^ 52 + mantissa.toNat) (exponent.toNat - 1075) := by
  have hbias : (Format.binary64.exponentBias : Int) + (52 : Nat) = 1075 := rfl
  unfold UnpackedFloat.unpack
  simp only [unpackExponent_packComponents, unpackMantissa_packComponents,
    unpackSign_packComponents, Sign.ofBitVec_toBitVec, if_neg hfinite, hbias]
  by_cases hsub : exponent = 0#11
  · rw [if_pos hsub, if_pos hsub, ofParts]
    by_cases hzero : mantissa = 0#52
    · rw [dif_pos hzero, dif_pos (by rw [hzero]; rfl)]
    · have hpos : mantissa.toNat ≠ 0 := fun h => hzero (BitVec.eq_of_toNat_eq h)
      rw [dif_neg hzero, dif_neg hpos]
      exact finite_congr rfl (by rw [hsub]; rfl)
  · have happend : (1#1 ++ mantissa).toNat = 2 ^ 52 + mantissa.toNat := by
      rw [BitVec.toNat_append, ← Nat.shiftLeft_add_eq_or_of_lt mantissa.isLt]
      rfl
    rw [if_neg hsub, if_neg hsub, ofParts, dif_neg (by omega)]
    exact finite_congr happend rfl

theorem unpack_pack_finite {s : Sign} {m : Nat} {e : Int} {hm : 0 < m}
    (h : Canonical (.finite s m e hm)) :
    unpack Format.binary64 (pack Format.binary64 (.finite s m e hm)) =
      if e ≤ 971 then .finite s m e hm else .infinity s := by
  obtain ⟨hlt, hexp, hfull⟩ := h
  have hbias : e + Format.binary64.exponentBias + Format.binary64.mantissaBitsWithoutImplicit =
      e + 1075 := by
    change e + (1023 : Nat) + (52 : Nat) = e + 1075
    omega
  unfold UnpackedFloat.pack
  dsimp only
  rw [hbias]
  by_cases hlarge : 2 ^ 11 ≤ (e + 1075).toNat + 1
  · rw [if_pos hlarge, if_neg (by omega)]
    cases s <;> rfl
  · have he : e ≤ 971 := by omega
    rw [if_neg hlarge, if_pos he]
    -- a mantissa of 53 bits is packed without its first bit, a shorter one with the exponent zero
    by_cases hnormal : 2 ^ 52 ≤ m
    · have hlog : m.log2 + 1 = Format.binary64.mantissaBits := by
        change m.log2 + 1 = 53
        have hlow := (Nat.le_log2 hm.ne').2 hnormal
        have hhigh := (Nat.log2_lt hm.ne').2 hlt
        omega
      have hbiased : (BitVec.ofNat 11 (e + 1075).toNat).toNat = (e + 1075).toNat := by
        rw [BitVec.toNat_ofNat, Nat.mod_eq_of_lt (by omega)]
      have hmantissa : (BitVec.ofNat 52 m).toNat = m - 2 ^ 52 := by
        rw [BitVec.toNat_ofNat]
        omega
      have hfinite : BitVec.ofNat 11 (e + 1075).toNat ≠ -1#11 := by
        intro h
        have hval := hbiased.symm.trans (congrArg BitVec.toNat h)
        simp only [BitVec.toNat_neg, BitVec.toNat_ofNat] at hval
        omega
      have hnonzero : BitVec.ofNat 11 (e + 1075).toNat ≠ 0#11 := by
        intro h
        have hval := hbiased.symm.trans (congrArg BitVec.toNat h)
        simp only [BitVec.toNat_ofNat] at hval
        omega
      rw [if_pos hlog]
      refine (unpack_packComponents hfinite).trans ?_
      rw [if_neg hnonzero, ofParts, dif_neg (by omega)]
      exact finite_congr (by omega) (by omega)
    · have hlog : ¬m.log2 + 1 = Format.binary64.mantissaBits := by
        change ¬m.log2 + 1 = 53
        have hlow := (Nat.log2_lt hm.ne').2 (not_le.1 hnormal)
        omega
      have hmantissa : (BitVec.ofNat 52 m).toNat = m := by
        rw [BitVec.toNat_ofNat, Nat.mod_eq_of_lt (not_le.1 hnormal)]
      rw [if_neg hlog]
      refine (unpack_packComponents (by decide)).trans ?_
      rw [if_pos rfl, ofParts, dif_neg (by omega)]
      exact finite_congr hmantissa (hfull.resolve_left hnormal).symm

/-- **Packing keeps a proper double**, or it exceeds the largest one and becomes infinite. -/
theorem unpack_pack {u : UnpackedFloat} (h : Proper u) :
    unpack Format.binary64 (pack Format.binary64 u) = u ∨
      2 ^ 1024 ≤ |value u| ∧ ∃ s, unpack Format.binary64 (pack Format.binary64 u) = .infinity s ∧
        (0 < value u → s = .positive) := by
  cases u with
  | infinity s => cases h.2
  | notANumber => cases h.2
  | zero s => exact .inl unpack_packedZero
  | finite s m e hm =>
    rw [unpack_pack_finite h.1]
    by_cases he : e ≤ 971
    · exact .inl (if_pos he)
    · rw [if_neg he]
      have hfull : 2 ^ 52 ≤ m := h.1.2.2.resolve_right (by omega)
      refine .inr ⟨?_, s, rfl, fun hpos => ?_⟩
      · have hpow : (2 : ℚ) ^ (972 : Int) ≤ 2 ^ e := zpow_le_zpow_right₀ one_le_two (by omega)
        have hm' : (2 : ℚ) ^ 52 ≤ m := by exact_mod_cast hfull
        rw [value_finite, abs_mul, abs_sign, one_mul, abs_of_nonneg (by positivity)]
        calc (2 : ℚ) ^ 1024 = (2 : ℚ) ^ 52 * (2 : ℚ) ^ (972 : Int) := by
              rw [← zpow_natCast, ← zpow_natCast, ← zpow_add₀ two_ne_zero]
              rfl
          _ ≤ (m : ℚ) * 2 ^ e := by gcongr
      · cases s with
        | positive => rfl
        | negative =>
          rw [value_negative] at hpos
          have hle : (0 : ℚ) ≤ m * 2 ^ e := by positivity
          linarith

theorem exponent_le {b : BitVec Format.binary64.numBits} {s : Sign} {m : Nat} {e : Int} {hm : 0 < m}
    (h : unpack Format.binary64 b = .finite s m e hm) : e ≤ 971 := by
  have hbias : (Format.binary64.exponentBias : Int) = 1023 := rfl
  have hexp : (unpackExponent b).toNat < 2 ^ 11 := (unpackExponent b).isLt
  unfold UnpackedFloat.unpack at h
  dsimp only at h
  split_ifs at h with hinf hzero hsub hzero'
  · have hexp' : (unpackExponent b).toNat = 0 := by rw [hsub]; rfl
    cases h
    rw [hexp', hbias]
    decide
  · have hexp' : (unpackExponent b).toNat ≠ 2 ^ 11 - 1 := fun h => hinf (BitVec.eq_of_toNat_eq h)
    cases h
    rw [hbias]
    change ((unpackExponent b).toNat : Int) - (1023 + (52 : Nat)) ≤ 971
    omega

/-! ### Rounded numbers -/

/-- The double `a` is the number `x`, rounded to nearest and packed. -/
def Rounded (x : ℚ) (a : Float) : Prop :=
  ∃ u, Nearest x u ∧ a.toModel.unpack = unpack Format.binary64 (pack Format.binary64 u)

section Rounded

variable {x : ℚ} {a b : Float}

/-- **A rounded number is close to the number**, unless it is infinite and the number as large. -/
theorem Rounded.cases (h : Rounded x a) :
    a.isFinite = true ∧ |number a - x| ≤ halfUnit x ∨
      a.isFinite = false ∧ 2 ^ 1024 ≤ |x| + halfUnit x := by
  obtain ⟨u, hu, ha⟩ := h
  obtain hkept | ⟨hlarge, s, hinfinite, -⟩ := unpack_pack hu.proper
  · have heq := ha.trans hkept
    refine .inl ⟨?_, ?_⟩
    · change a.toModel.unpack.isFinite = true
      rw [heq]
      exact hu.proper.2
    · rw [number, heq]
      exact hu.close
  · refine .inr ⟨?_, ?_⟩
    · change a.toModel.unpack.isFinite = false
      rw [ha.trans hinfinite]
      rfl
    · calc (2 : ℚ) ^ 1024 ≤ |value u| := hlarge
        _ = |x + (value u - x)| := by rw [add_sub_cancel]
        _ ≤ |x| + |value u - x| := abs_add_le _ _
        _ ≤ |x| + halfUnit x := by gcongr; exact hu.close

theorem Rounded.isFinite (h : Rounded x a) (hx : |x| + halfUnit x < 2 ^ 1024) :
    a.isFinite = true := by
  rcases h.cases with ⟨ha, -⟩ | ⟨-, hlarge⟩
  · exact ha
  · exact absurd hlarge (not_le.2 hx)

theorem Rounded.close (h : Rounded x a) (ha : a.isFinite = true) :
    |number a - x| ≤ halfUnit x := by
  rcases h.cases with ⟨-, hclose⟩ | ⟨hinfinite, -⟩
  · exact hclose
  · cases hinfinite.symm.trans ha

theorem Rounded.three_quarters_le (h : Rounded x a) (ha : a.isFinite = true)
    (hx : 1 / 2 ≤ x) : 3 / 4 * x ≤ number a := by
  have hclose := (abs_le.1 (h.close ha)).1
  have hpow : (1 : ℚ) / 2 ^ 1000 ≤ 1 / 2 :=
    one_div_le_one_div_of_le two_pos (le_self_pow₀ one_le_two (by norm_num))
  have hpos : (0 : ℚ) < x := by linarith
  rw [halfUnit_of_le (by rw [abs_of_pos hpos]; exact hpow.trans hx), abs_of_pos hpos] at hclose
  linarith

theorem proper_unpack (ha : a.isFinite = true) : Proper a.toModel.unpack :=
  ⟨canonical_unpack _, ha⟩

theorem rounded_add (ha : a.isFinite = true) (hb : b.isFinite = true) :
    Rounded (number a + number b) (a + b) :=
  ⟨_, nearest_add (proper_unpack ha) (proper_unpack hb), rfl⟩

theorem rounded_sub (ha : a.isFinite = true) (hb : b.isFinite = true) :
    Rounded (number a - number b) (a - b) :=
  ⟨_, nearest_sub (proper_unpack ha) (proper_unpack hb), rfl⟩

theorem rounded_mul (ha : a.isFinite = true) (hb : b.isFinite = true) :
    Rounded (number a * number b) (a * b) :=
  ⟨_, nearest_mul (proper_unpack ha) (proper_unpack hb), rfl⟩

theorem rounded_div (ha : a.isFinite = true) (hb : b.isFinite = true) (hzero : number b ≠ 0) :
    Rounded (number a / number b) (a / b) :=
  ⟨_, nearest_div (proper_unpack ha) (proper_unpack hb) hzero, rfl⟩

/-! ### The numbers of doubles -/

theorem least_le_value {u : UnpackedFloat} (h : Proper u) (hpos : 0 < value u) :
    1 / 2 ^ 1074 ≤ value u := by
  cases u with
  | infinity s => cases h.2
  | notANumber => cases h.2
  | zero s => exact absurd hpos (lt_irrefl 0)
  | finite s m e hm =>
    have hone : (1 : ℚ) ≤ m := by exact_mod_cast hm
    have hpow : (2 : ℚ) ^ (-1074 : Int) ≤ 2 ^ e := zpow_le_zpow_right₀ one_le_two h.1.2.1
    cases s with
    | negative =>
      rw [value_negative] at hpos
      have hle : (0 : ℚ) ≤ m * 2 ^ e := by positivity
      linarith
    | positive =>
      rw [value_positive]
      calc (1 : ℚ) / 2 ^ 1074 = 1 * 2 ^ (-1074 : Int) := by
            rw [one_mul, zpow_neg, one_div]
            rfl
        _ ≤ m * 2 ^ e := by gcongr

theorem abs_number_le (ha : a.isFinite = true) : |number a| ≤ 2 ^ 1024 - 2 ^ 971 := by
  have hproper := proper_unpack ha
  rw [number]
  cases hu : a.toModel.unpack with
  | infinity s =>
    rw [hu] at hproper
    cases hproper.2
  | notANumber =>
    rw [hu] at hproper
    cases hproper.2
  | zero s =>
    have hvalue : value (.zero s) = 0 := rfl
    rw [hvalue, abs_zero, sub_nonneg]
    exact pow_le_pow_right₀ one_le_two (by norm_num)
  | finite s m e hm =>
    rw [hu] at hproper
    have hm' : (m : ℚ) ≤ 2 ^ 53 - 1 := by
      have hlt := hproper.1.1
      have hle : m + 1 ≤ 2 ^ 53 := hlt
      have hcast : (m : ℚ) + 1 ≤ 2 ^ 53 := by exact_mod_cast hle
      linarith
    have hpow : (2 : ℚ) ^ e ≤ 2 ^ (971 : Int) := zpow_le_zpow_right₀ one_le_two (exponent_le hu)
    rw [value_finite, abs_mul, abs_sign, one_mul, abs_of_nonneg (by positivity)]
    calc (m : ℚ) * 2 ^ e ≤ (2 ^ 53 - 1) * 2 ^ (971 : Int) :=
          mul_le_mul hm' hpow (zpow_nonneg zero_le_two _) (by norm_num)
      _ = 2 ^ 1024 - 2 ^ 971 := by
        rw [sub_mul, one_mul, zpow_ofNat, ← pow_add]

theorem exists_multiple (s : Sign) {m : Nat} {e t : Int} (hm : 0 < m) (h : t ≤ e) :
    ∃ k : Int, value (.finite s m e hm) = k * 2 ^ t :=
  ⟨_, (shifted_value s h hm).symm⟩

theorem abs_value_finite (s : Sign) {m : Nat} {e : Int} (hm : 0 < m) :
    |value (.finite s m e hm)| = m * 2 ^ e := by
  rw [value_finite, abs_mul, abs_sign, one_mul, abs_of_nonneg (by positivity)]

/-- **Doubles do not cancel but for the last bits**: a sum that is not zero is not small compared to its
terms. -/
theorem abs_value_le_sum {u v : UnpackedFloat} (hu : Proper u) (hv : Proper v)
    (hsum : value u + value v ≠ 0) : |value u| ≤ 2 ^ 54 * |value u + value v| := by
  have hself : ∀ x : ℚ, |x| ≤ 2 ^ 54 * |x| := fun x => le_mul_of_one_le_left (abs_nonneg x) (by norm_num)
  cases u with
  | infinity s => cases hu.2
  | notANumber => cases hu.2
  | zero s =>
    have hvalue : value (.zero s) = 0 := rfl
    rw [hvalue, abs_zero]
    positivity
  | finite s m e hm =>
    cases v with
    | infinity s' => cases hv.2
    | notANumber => cases hv.2
    | zero s' =>
      have hvalue : value (.zero s') = 0 := rfl
      rw [hvalue, add_zero]
      exact hself _
    | finite s' m' e' hm' =>
      obtain ⟨hlt, hexp, hfull⟩ := hu.1
      obtain ⟨hlt', hexp', -⟩ := hv.1
      have hm53 : (m : ℚ) ≤ 2 ^ 53 := by exact_mod_cast hlt.le
      have hm53' : (m' : ℚ) ≤ 2 ^ 53 := by exact_mod_cast hlt'.le
      have hpow : (2 : ℚ) ^ e = 2 * 2 ^ (e - 1) := by
        rw [← zpow_one_add₀ two_ne_zero, add_sub_cancel]
      have hpos : (0 : ℚ) < 2 ^ (e - 1) := zpow_pos two_pos _
      by_cases hnear : e - 1 ≤ e'
      · -- both are multiples of `2 ^ (e - 1)`, and so is the sum
        obtain ⟨k, hk⟩ := exists_multiple s (e := e) (t := e - 1) hm (by omega)
        obtain ⟨k', hk'⟩ := exists_multiple s' hm' hnear
        have hfactor : value (.finite s m e hm) + value (.finite s' m' e' hm') =
            ((k + k' : Int) : ℚ) * 2 ^ (e - 1) := by
          rw [hk, hk', Int.cast_add, add_mul]
        rw [hfactor] at hsum ⊢
        have hone : (1 : ℚ) ≤ |((k + k' : Int) : ℚ)| := by
          have hne : k + k' ≠ 0 := fun h => hsum (by rw [h, Int.cast_zero, zero_mul])
          exact_mod_cast Int.one_le_abs hne
        rw [abs_value_finite, abs_mul, abs_of_pos hpos, hpow]
        calc (m : ℚ) * (2 * 2 ^ (e - 1)) ≤ 2 ^ 53 * (2 * 2 ^ (e - 1)) := by gcongr
          _ = 2 ^ 54 * (1 * 2 ^ (e - 1)) := by ring
          _ ≤ 2 ^ 54 * (|((k + k' : Int) : ℚ)| * 2 ^ (e - 1)) := by gcongr
      · -- the second is too small to cancel more than half of the first
        have hm52 : (2 : ℚ) ^ 52 ≤ m := by exact_mod_cast hfull.resolve_right (by omega)
        have hle : (2 : ℚ) ^ e' ≤ 2 ^ (e - 1) / 2 := by
          rw [div_eq_mul_inv, ← zpow_sub_one₀ two_ne_zero]
          exact zpow_le_zpow_right₀ one_le_two (by omega)
        have hsmall : |value (.finite s' m' e' hm')| ≤ |value (.finite s m e hm)| / 2 := by
          rw [abs_value_finite, abs_value_finite, hpow]
          calc (m' : ℚ) * 2 ^ e' ≤ 2 ^ 53 * (2 ^ (e - 1) / 2) := by gcongr
            _ = 2 ^ 52 * (2 * 2 ^ (e - 1)) / 2 := by ring
            _ ≤ m * (2 * 2 ^ (e - 1)) / 2 := by gcongr
        have htriangle := abs_sub_abs_le_abs_sub (value (.finite s m e hm))
          (-value (.finite s' m' e' hm'))
        rw [abs_neg, sub_neg_eq_add] at htriangle
        have hscaled := hself (value (.finite s m e hm) + value (.finite s' m' e' hm'))
        have hnonneg := abs_nonneg (value (.finite s m e hm) + value (.finite s' m' e' hm'))
        linarith

end Rounded

/-! ### Positive doubles -/

/-- Above zero. -/
def Positive (u : UnpackedFloat) : Prop := UnpackedFloat.lt (.zero .positive) u = true

theorem Positive.cases {u : UnpackedFloat} (h : Positive u) :
    u = .infinity .positive ∨ ∃ m e hm, u = .finite .positive m e hm := by
  cases u with
  | infinity s =>
    cases s with
    | positive => exact .inl rfl
    | negative => cases h
  | notANumber => cases h
  | zero s => cases h
  | finite s m e hm =>
    cases s with
    | positive => exact .inr ⟨m, e, hm, rfl⟩
    | negative => cases h

theorem positive_of_value_pos {u : UnpackedFloat} (h : 0 < value u) : Positive u := by
  cases u with
  | infinity s => exact absurd h (lt_irrefl 0)
  | notANumber => exact absurd h (lt_irrefl 0)
  | zero s => exact absurd h (lt_irrefl 0)
  | finite s m e hm =>
    cases s with
    | positive => rfl
    | negative =>
      rw [value_negative] at h
      have hle : (0 : ℚ) ≤ m * 2 ^ e := by positivity
      linarith

section Positive

variable {x : ℚ} {a : Float}

theorem zero_lt_iff : 0 < a ↔ Positive a.toModel.unpack := lt_unpack

theorem number_pos (ha : 0 < a) (hfinite : a.isFinite = true) : 0 < number a := by
  have hlt := (lt_iff_number (a := 0) rfl hfinite).1 ha
  have hzero : number 0 = 0 := rfl
  rwa [hzero] at hlt

theorem Rounded.pos (h : Rounded x a) (hx : 1 / 2 ^ 1074 ≤ x) : 0 < a := by
  obtain ⟨u, hu, ha⟩ := h
  have hxpos : 0 < x := lt_of_lt_of_le (by positivity) hx
  have hhalf : halfUnit x < x := by
    rw [halfUnit, abs_of_pos hxpos, max_lt_iff]
    constructor
    · exact div_lt_self hxpos (by norm_num)
    · refine lt_of_lt_of_le ?_ hx
      exact one_div_lt_one_div_of_lt (by positivity) (pow_lt_pow_right₀ one_lt_two (by norm_num))
  have hpos : 0 < value u := by
    have hclose := (abs_le.1 hu.close).1
    linarith
  rw [zero_lt_iff, ha]
  obtain hkept | ⟨-, s, hinfinite, hsign⟩ := unpack_pack hu.proper
  · rw [hkept]
    exact positive_of_value_pos hpos
  · rw [hinfinite, hsign hpos]
    rfl

theorem number_one : number 1 = 1 := by
  have hunpack : (1 : Float).toModel.unpack = .finite .positive (2 ^ 52) (-52) (by decide) := rfl
  rw [number, hunpack, value_positive]
  norm_num

theorem number_half : number 0.5 = 1 / 2 := by
  have hunpack : (0.5 : Float).toModel.unpack = .finite .positive (2 ^ 52) (-53) (by decide) := rfl
  rw [number, hunpack, value_positive]
  norm_num

theorem unpack_of_not_isFinite (ha : 0 < a) (hfinite : a.isFinite ≠ true) :
    a.toModel.unpack = .infinity .positive :=
  (zero_lt_iff.1 ha).cases.resolve_right fun ⟨m, e, hm, heq⟩ => hfinite <| by
    change a.toModel.unpack.isFinite = true
    rw [heq]
    rfl

theorem one_mul_pos (ha : 0 < a) : 0 < 1 * a := by
  by_cases hfinite : a.isFinite = true
  · have hleast := least_le_value (proper_unpack hfinite) (number_pos ha hfinite)
    refine (rounded_mul (a := 1) rfl hfinite).pos ?_
    rwa [number_one, one_mul]
  · rw [zero_lt_iff]
    change Positive (unpack _ (pack _ (UnpackedFloat.mul _ (1 : Float).toModel.unpack
      a.toModel.unpack)))
    rw [unpack_of_not_isFinite ha hfinite]
    rfl

/-- **One over a positive, finite double is positive.** -/
theorem one_div_pos (ha : 0 < a) (hfinite : a.isFinite = true) : 0 < 1 / a := by
  have hpos := number_pos ha hfinite
  refine (rounded_div (a := 1) rfl hfinite hpos.ne').pos ?_
  have hlarge : number a ≤ 2 ^ 1074 := by
    have hle := (le_abs_self _).trans (abs_number_le hfinite)
    have hpow : (2 : ℚ) ^ 1024 ≤ 2 ^ 1074 := pow_le_pow_right₀ one_le_two (by norm_num)
    exact (hle.trans (sub_le_self _ (by positivity))).trans hpow
  rw [number_one]
  exact one_div_le_one_div_of_le hpos hlarge

theorem infinity_mul_positive {u : UnpackedFloat} (h : Positive u) :
    UnpackedFloat.mul Format.binary64 (.infinity .positive) u = .infinity .positive := by
  obtain rfl | ⟨m, e, hm, rfl⟩ := h.cases
  · rfl
  · rfl

theorem not_infinity_le {u : UnpackedFloat} (h : u.isFinite = true) :
    ¬UnpackedFloat.le (.infinity .positive) u = true := by
  obtain ⟨-, -, hcompare, -⟩ := compare_infinity h
  rw [UnpackedFloat.le, hcompare]
  decide

/-- **The multiples of a positive double pass every finite one.** -/
theorem exists_multiple_not_le {period last : Float} (hperiod : 0 < period)
    (hlast : last.isFinite = true) : ∃ k : Nat, 1 ≤ k ∧ ¬Float.ofNat k * period ≤ last := by
  obtain ⟨k, hk, hlarge, hpos⟩ : ∃ k : Nat, 1 ≤ k ∧ ¬(Float.ofNat k).isFinite = true ∧
      0 < Float.ofNat k := ⟨2 ^ 1100, by decide +kernel⟩
  have hinfinite := unpack_of_not_isFinite hpos hlarge
  rw [zero_lt_iff] at hperiod
  have hproduct : (Float.ofNat k * period).toModel.unpack = .infinity .positive := by
    change unpack _ (pack _ (UnpackedFloat.mul _ (Float.ofNat k).toModel.unpack _)) = _
    rw [hinfinite, infinity_mul_positive hperiod]
    rfl
  refine ⟨k, hk, ?_⟩
  rw [le_unpack, hproduct]
  exact not_infinity_le hlast

end Positive

/-! ### Natural numbers -/

theorem rounded_ofUInt64 (n : UInt64) : Rounded n.toNat n.toFloat := by
  refine ⟨_, ?_, rfl⟩
  have hnearest := nearest_normalize (n.toNat : Int) 0 .positive
  rwa [zpow_zero, mul_one, Int.cast_natCast] at hnearest

/-- A natural number of at least 53 bits is rounded once. -/
theorem rounded_ofNat {n : Nat} (hn : 2 ^ 53 ≤ n) : Rounded n (Float.ofNat n) := by
  have hpos : 0 < n := (Nat.two_pow_pos 53).trans_le hn
  have hscaled : 0 < n <<< 53 := by
    rw [Nat.shiftLeft_eq]
    exact Nat.mul_pos hpos (Nat.two_pow_pos 53)
  -- the conversion is a product with one, of a mantissa that has bits to spare
  have hproduct : UnpackedFloat.ofScientific Format.binary64 n 0 =
      UnpackedFloat.mul Format.binary64 (.finite .positive (n <<< 53) (-53) hscaled)
        (.finite .positive 1 0 one_pos) := by
    have hleast : ¬(0 : Int) < -(2 ^ Format.binary64.exponentBits + (n.log2 : Int)) := by
      have hbits : (0 : Int) ≤ 2 ^ Format.binary64.exponentBits := by decide
      omega
    rw [UnpackedFloat.ofScientific, dif_neg hpos.ne', if_neg (by decide), if_neg hleast,
      if_pos le_rfl]
    rfl
  have hvalue : value (.finite .positive (n <<< 53) (-53) hscaled) *
      value (.finite .positive 1 0 one_pos) = n := by
    rw [value_positive, value_positive, Nat.shiftLeft_eq]
    push_cast
    rw [mul_one, mul_one, mul_assoc]
    norm_num
  have hunpack : (Float.ofNat n).toModel.unpack = unpack Format.binary64 (pack Format.binary64
      (UnpackedFloat.ofScientific Format.binary64 n 0)) := by
    have hmodel : Float.ofNat n = Float.ofModel (Float.Model.ofScientific n 0) :=
      dif_neg fun h => hn.not_gt h.1
    rw [hmodel]
    rfl
  rw [hproduct] at hunpack
  rw [← hvalue]
  refine ⟨_, nearest_mul_finite .positive .positive hscaled one_pos ?_, hunpack⟩
  have hlog := log2_shiftLeft hpos 53
  rw [target, Nat.mul_one, hlog]
  push_cast
  omega

/-- A shorter one passes through 64 bits and one more product. -/
theorem ofNat_eq_mul {n : Nat} (hn : n < 2 ^ 53) :
    Float.ofNat n = n.toUInt64.toFloat * 1 ∧ Rounded n n.toUInt64.toFloat := by
  have hnat : n.toUInt64.toNat = n := Nat.mod_eq_of_lt (by omega)
  refine ⟨dif_pos ⟨hn, by decide⟩, ?_⟩
  have hrounded := rounded_ofUInt64 n.toUInt64
  rwa [hnat] at hrounded

theorem half_le_number_ofNat {n : Nat} (hn : 1 ≤ n) (h : (Float.ofNat n).isFinite = true) :
    1 / 2 ≤ number (Float.ofNat n) := by
  have hn' : (1 : ℚ) ≤ n := by exact_mod_cast hn
  by_cases hsmall : n < 2 ^ 53
  · obtain ⟨hproduct, hfirst⟩ := ofNat_eq_mul hsmall
    rw [hproduct] at h ⊢
    obtain ⟨hfinite, -⟩ := isFinite_of_mul h
    have hlow := hfirst.three_quarters_le hfinite (by linarith)
    have hsecond := rounded_mul (b := 1) hfinite rfl
    rw [number_one, mul_one] at hsecond
    have hlow' := hsecond.three_quarters_le h (by linarith)
    linarith
  · have hlow := (rounded_ofNat (not_lt.1 hsmall)).three_quarters_le h (by linarith)
    linarith

end Doubles

end PoseFilter
