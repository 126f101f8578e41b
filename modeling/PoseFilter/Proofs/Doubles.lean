import Mathlib
import PoseFilter.Scalar.Floating

/-!
# Comparing and subtracting doubles

What the filter relies on when it compares times and takes their difference.  A finite double stands
for the number `± m · 2 ^ e` (`Doubles.value`).  Doubles are kept in a canonical form, in which the
exponent decides before the mantissa does, so comparing two of them is comparing their numbers
(`Doubles.compare_eq`), and a difference is rounded from the exact one without changing its sign.

* `Doubles.canonical_unpack` : every double is in canonical form.
* `Doubles.lt_iff`, `Doubles.le_iff` : finite doubles are ordered as their numbers.
* `Doubles.not_sub_neg` : the difference of a double that is not below a finite one is not below zero.
* `Doubles.compare_eq_rank`, `Doubles.le_iff_rank` : with the infinities at the ends, all defined
  doubles are in a total order, but for the two zeros (`Doubles.eq_of_le_of_le`).
* `Doubles.isFinite_operands` : what is not finite stays so under sums, differences and products.
-/

namespace PoseFilter

namespace Doubles

open Float.Model Float.Model.UnpackedFloat

/-! ### Canonical form -/

/-- A mantissa of 53 bits; only the least exponent may leave its first bit empty. -/
def Canonical : UnpackedFloat → Prop
  | .finite _ m e _ => m < 2 ^ 53 ∧ -1074 ≤ e ∧ (2 ^ 52 ≤ m ∨ e = -1074)
  | _ => True

theorem canonical_unpack (b : BitVec Format.binary64.numBits) :
    Canonical (unpack Format.binary64 b) := by
  have hbias : (Format.binary64.exponentBias : Int) = 1023 := rfl
  have hm : (unpackMantissa b).toNat < 2 ^ 52 := (unpackMantissa b).isLt
  unfold UnpackedFloat.unpack
  dsimp only
  split_ifs with hinf hzero hsub hzero'
  · trivial
  · trivial
  · trivial
  · -- a subnormal number: the least exponent, and any mantissa
    have hexp : (unpackExponent b).toNat = 0 := by rw [hsub]; rfl
    refine ⟨by omega, ?_, .inr ?_⟩ <;> rw [hexp, hbias] <;> decide
  · -- a normal number: the first bit is implicit
    have hexp : (unpackExponent b).toNat ≠ 0 := fun h => hsub (BitVec.eq_of_toNat_eq h)
    have happend : (1#1 ++ unpackMantissa b).toNat = 2 ^ 52 + (unpackMantissa b).toNat := by
      rw [BitVec.toNat_append, ← Nat.shiftLeft_add_eq_or_of_lt hm]
      rfl
    refine ⟨by omega, ?_, .inl (by omega)⟩
    rw [hbias]
    omega

/-! ### The order of the numbers -/

/-- The number that a finite double stands for. -/
def value : UnpackedFloat → ℚ
  | .finite s m e _ => s.apply m * 2 ^ e
  | _ => 0

theorem value_positive {m : Nat} {e : Int} (h : 0 < m) :
    value (.finite .positive m e h) = m * 2 ^ e := by
  simp [value, Sign.apply]

theorem value_negative {m : Nat} {e : Int} (h : 0 < m) :
    value (.finite .negative m e h) = -(m * 2 ^ e) := by
  simp [value, Sign.apply]

theorem magnitude_lt {m₁ m₂ : Nat} {e₁ e₂ : Int} (h₁ : m₁ < 2 ^ 53) (h₂ : 2 ^ 52 ≤ m₂)
    (he : e₁ < e₂) : (m₁ : ℚ) * 2 ^ e₁ < m₂ * 2 ^ e₂ := by
  have hlow : (m₁ : ℚ) < 2 ^ 53 := by exact_mod_cast h₁
  have hhigh : (2 : ℚ) ^ 52 ≤ m₂ := by exact_mod_cast h₂
  have hpow : (2 : ℚ) ^ (e₁ + 1) ≤ 2 ^ e₂ := zpow_le_zpow_right₀ one_le_two he
  calc (m₁ : ℚ) * 2 ^ e₁ < 2 ^ 53 * 2 ^ e₁ := by gcongr
    _ = 2 ^ 52 * 2 ^ (e₁ + 1) := by rw [zpow_add_one₀ two_ne_zero]; ring
    _ ≤ m₂ * 2 ^ e₂ := by gcongr

/-- Comparing exponents and then mantissas is comparing the numbers. -/
theorem compare_magnitude {m₁ m₂ : Nat} {e₁ e₂ : Int}
    (h₁ : m₁ < 2 ^ 53 ∧ -1074 ≤ e₁ ∧ (2 ^ 52 ≤ m₁ ∨ e₁ = -1074))
    (h₂ : m₂ < 2 ^ 53 ∧ -1074 ≤ e₂ ∧ (2 ^ 52 ≤ m₂ ∨ e₂ = -1074)) :
    (compare e₁ e₂).then (compare m₁ m₂) = compare ((m₁ : ℚ) * 2 ^ e₁) (m₂ * 2 ^ e₂) := by
  have hpow : ∀ e : Int, (0 : ℚ) < 2 ^ e := fun e => zpow_pos two_pos e
  rcases lt_trichotomy e₁ e₂ with he | rfl | he
  · have hfull : 2 ^ 52 ≤ m₂ := h₂.2.2.resolve_right (by omega)
    rw [Int.compare_eq_lt.2 he, compare_lt_iff_lt.2 (magnitude_lt h₁.1 hfull he)]
    rfl
  · rw [Int.compare_eq_eq.2 rfl]
    rcases lt_trichotomy m₁ m₂ with hm | rfl | hm
    · have hlt : (m₁ : ℚ) * 2 ^ e₁ < m₂ * 2 ^ e₁ :=
        mul_lt_mul_of_pos_right (by exact_mod_cast hm) (hpow e₁)
      rw [Nat.compare_eq_lt.2 hm, compare_lt_iff_lt.2 hlt]
      rfl
    · rw [Nat.compare_eq_eq.2 rfl, compare_eq_iff_eq.2 rfl]
      rfl
    · have hlt : (m₂ : ℚ) * 2 ^ e₁ < m₁ * 2 ^ e₁ :=
        mul_lt_mul_of_pos_right (by exact_mod_cast hm) (hpow e₁)
      rw [Nat.compare_eq_gt.2 hm, compare_gt_iff_gt.2 hlt]
      rfl
  · have hfull : 2 ^ 52 ≤ m₁ := h₁.2.2.resolve_right (by omega)
    rw [Int.compare_eq_gt.2 he, compare_gt_iff_gt.2 (magnitude_lt h₂.1 hfull he)]
    rfl

theorem compare_neg_neg (x y : ℚ) : compare (-x) (-y) = (compare x y).swap := by
  rcases lt_trichotomy x y with h | rfl | h
  · rw [compare_lt_iff_lt.2 h, compare_gt_iff_gt.2 (neg_lt_neg h)]
    rfl
  · rw [compare_eq_iff_eq.2 rfl, compare_eq_iff_eq.2 rfl]
    rfl
  · rw [compare_gt_iff_gt.2 h, compare_lt_iff_lt.2 (neg_lt_neg h)]
    rfl

/-- **Finite doubles compare as their numbers do.** -/
theorem compare_eq {a b : UnpackedFloat} (ha : Canonical a) (hb : Canonical b)
    (hfa : a.isFinite = true) (hfb : b.isFinite = true) :
    UnpackedFloat.compare a b = some (compare (value a) (value b)) := by
  have hpos : ∀ {m : Nat} {e : Int}, 0 < m → (0 : ℚ) < m * 2 ^ e := fun hm =>
    mul_pos (by exact_mod_cast hm) (zpow_pos two_pos _)
  -- only two numbers of the same sign need more than their signs
  cases a with
  | infinity s => cases hfa
  | notANumber => cases hfa
  | zero s =>
    cases b with
    | infinity s' => cases hfb
    | notANumber => cases hfb
    | zero s' => exact congrArg some (compare_eq_iff_eq.2 rfl).symm
    | finite s' m e hm =>
      cases s' with
      | positive =>
        rw [value_positive]
        exact congrArg some (compare_lt_iff_lt.2 (hpos hm)).symm
      | negative =>
        rw [value_negative]
        exact congrArg some (compare_gt_iff_gt.2 (neg_lt_zero.2 (hpos hm))).symm
  | finite s m e hm =>
    cases b with
    | infinity s' => cases hfb
    | notANumber => cases hfb
    | zero s' =>
      cases s with
      | positive =>
        rw [value_positive]
        exact congrArg some (compare_gt_iff_gt.2 (hpos hm)).symm
      | negative =>
        rw [value_negative]
        exact congrArg some (compare_lt_iff_lt.2 (neg_lt_zero.2 (hpos hm))).symm
    | finite s' m' e' hm' =>
      cases s with
      | positive =>
        cases s' with
        | positive =>
          rw [value_positive, value_positive, ← compare_magnitude ha hb]
          rfl
        | negative =>
          rw [value_positive, value_negative]
          exact congrArg some (compare_gt_iff_gt.2
            ((neg_lt_zero.2 (hpos hm')).trans (hpos hm))).symm
      | negative =>
        cases s' with
        | positive =>
          rw [value_negative, value_positive]
          exact congrArg some (compare_lt_iff_lt.2
            ((neg_lt_zero.2 (hpos hm)).trans (hpos hm'))).symm
        | negative =>
          rw [value_negative, value_negative, compare_neg_neg, ← compare_magnitude ha hb]
          rfl

theorem lt_iff {a b : UnpackedFloat} (ha : Canonical a) (hb : Canonical b)
    (hfa : a.isFinite = true) (hfb : b.isFinite = true) :
    a.lt b = true ↔ value a < value b := by
  rw [UnpackedFloat.lt, compare_eq ha hb hfa hfb, ← compare_lt_iff_lt]
  cases compare (value a) (value b) <;> decide

theorem le_iff {a b : UnpackedFloat} (ha : Canonical a) (hb : Canonical b)
    (hfa : a.isFinite = true) (hfb : b.isFinite = true) :
    a.le b = true ↔ value a ≤ value b := by
  rw [UnpackedFloat.le, compare_eq ha hb hfa hfb, ← compare_le_iff_le]
  cases compare (value a) (value b) <;> decide

/-! ### Differences -/

/-- Not below zero: undefined, a zero, or of positive sign. -/
def Unsigned : UnpackedFloat → Prop
  | .infinity s => s = .positive
  | .finite s _ _ _ => s = .positive
  | _ => True

theorem not_lt_zero_of_unsigned {u : UnpackedFloat} (h : Unsigned u) (s : Sign) :
    u.lt (.zero s) = false := by
  cases u with
  | infinity s' => cases h; rfl
  | notANumber => rfl
  | zero s' => rfl
  | finite s' m e hm => cases h; rfl

theorem unsigned_unpack_of_sign {b : BitVec Format.binary64.numBits}
    (h : unpackSign b = Sign.positive.toBitVec) : Unsigned (unpack Format.binary64 b) := by
  have hsign : Sign.ofBitVec (unpackSign b) = .positive := by rw [h]; rfl
  unfold UnpackedFloat.unpack
  dsimp only
  rw [hsign]
  split_ifs <;> first | rfl | trivial

theorem unsigned_unpack_pack {u : UnpackedFloat} (h : Unsigned u) :
    Unsigned (unpack Format.binary64 (pack Format.binary64 u)) := by
  cases u with
  | infinity s =>
    cases h
    exact unsigned_unpack_of_sign (unpackSign_packComponents _ _ _)
  | notANumber => exact unsigned_unpack_of_sign (unpackSign_packComponents _ _ _)
  | zero s =>
    cases s with
    | positive => exact unsigned_unpack_of_sign (unpackSign_packComponents _ _ _)
    | negative =>
      rw [show unpack Format.binary64 (pack Format.binary64 (.zero .negative)) = .zero .negative from rfl]
      trivial
  | finite s m e hm =>
    cases h
    unfold UnpackedFloat.pack
    dsimp only
    split_ifs <;> exact unsigned_unpack_of_sign (unpackSign_packComponents _ _ _)

theorem unsigned_round (spec : Format) (m : Nat) (e : Int) :
    Unsigned (round spec .positive m e) := by
  unfold UnpackedFloat.round roundWithAccuracy
  dsimp only
  split_ifs
  · trivial
  · rfl

theorem unsigned_normalize (spec : Format) {m : Int} (hm : 0 ≤ m) (e : Int) :
    Unsigned (normalize spec m e .positive) := by
  unfold UnpackedFloat.normalize
  cases hc : compare m 0 with
  | lt => exact absurd (Int.compare_eq_lt.1 hc) (not_lt.2 hm)
  | eq => trivial
  | gt => exact unsigned_round _ _ _

theorem shifted_value (s : Sign) {m : Nat} {e target : Int} (h : target ≤ e) (hm : 0 < m) :
    (s.apply (decreaseExponent m e target).1 : ℚ) * 2 ^ target = value (.finite s m e hm) := by
  have hshift : ((decreaseExponent m e target).1 : ℚ) * 2 ^ target = m * 2 ^ e := by
    have hexp : ((e - target).toNat : Int) + target = e := by omega
    rw [decreaseExponent, Nat.shiftLeft_eq, Nat.cast_mul, Nat.cast_pow, Nat.cast_ofNat, mul_assoc,
      ← zpow_natCast, ← zpow_add₀ two_ne_zero, hexp]
  cases s with
  | positive => rw [value_positive, ← hshift]; simp [Sign.apply]
  | negative => rw [value_negative, ← hshift]; simp [Sign.apply]

theorem unsigned_sub {a b : UnpackedFloat} (ha : Canonical a) (hb : Canonical b)
    (hfb : b.isFinite = true) (h : a.lt b = false) :
    Unsigned (UnpackedFloat.sub Format.binary64 a b) := by
  cases b with
  | infinity s => cases hfb
  | notANumber => cases hfb
  | zero s =>
    cases a with
    | infinity s' => cases s' with
      | positive => rfl
      | negative => cases h
    | notANumber => trivial
    | zero s' => cases s' <;> cases s <;> trivial
    | finite s' m' e' hm' => cases s' with
      | positive => rfl
      | negative => cases h
  | finite s m e hm =>
    cases a with
    | infinity s' => cases s' with
      | positive => rfl
      | negative => cases h
    | notANumber => trivial
    | zero s' => cases s with
      | positive => cases h
      | negative => rfl
    | finite s' m' e' hm' =>
      -- the exact difference is not negative, and it is what is rounded
      have hle : value (.finite s m e hm) ≤ value (.finite s' m' e' hm') := by
        rw [← not_lt, ← lt_iff ha hb rfl rfl, h]
        exact Bool.false_ne_true
      refine unsigned_normalize _ ?_ _
      have hdiff := sub_nonneg.2 hle
      rw [← shifted_value s (min_le_right e' e) hm, ← shifted_value s' (min_le_left e' e) hm',
        ← sub_mul] at hdiff
      have hnonneg := nonneg_of_mul_nonneg_left hdiff (zpow_pos two_pos _)
      exact_mod_cast hnonneg

theorem isFinite_unpack_pack {u : UnpackedFloat}
    (h : (unpack Format.binary64 (pack Format.binary64 u)).isFinite = true) : u.isFinite = true := by
  cases u with
  | infinity s => cases s <;> cases h
  | notANumber => cases h
  | zero s => rfl
  | finite s m e hm => rfl

theorem isFinite_operands {a b : UnpackedFloat}
    (h : (UnpackedFloat.add Format.binary64 a b).isFinite = true ∨
      (UnpackedFloat.sub Format.binary64 a b).isFinite = true ∨
      (UnpackedFloat.mul Format.binary64 a b).isFinite = true) :
    a.isFinite = true ∧ b.isFinite = true := by
  cases a with
  | infinity s =>
    cases b with
    | infinity s' => cases s <;> cases s' <;> rcases h with h | h | h <;> cases h
    | _ => rcases h with h | h | h <;> cases h
  | notANumber => rcases h with h | h | h <;> cases h
  | zero s =>
    cases b with
    | infinity s' => rcases h with h | h | h <;> cases h
    | notANumber => rcases h with h | h | h <;> cases h
    | _ => exact ⟨rfl, rfl⟩
  | finite s m e hm =>
    cases b with
    | infinity s' => rcases h with h | h | h <;> cases h
    | notANumber => rcases h with h | h | h <;> cases h
    | _ => exact ⟨rfl, rfl⟩

/-- A quotient says nothing about its divisor, which may be infinite. -/
theorem isFinite_dividend {a b : UnpackedFloat}
    (h : (UnpackedFloat.div Format.binary64 a b).isFinite = true) : a.isFinite = true := by
  cases a with
  | infinity s => cases b <;> cases h
  | notANumber => cases h
  | zero s => rfl
  | finite s m e hm => rfl

theorem unpacked_sub_self {a : UnpackedFloat} (ha : a.isFinite = true) :
    UnpackedFloat.sub Format.binary64 a a = .zero .positive := by
  cases a with
  | infinity s => cases ha
  | notANumber => cases ha
  | zero s => cases s <;> rfl
  | finite s m e hm => simp [UnpackedFloat.sub, UnpackedFloat.normalize]

theorem isFinite_of_unpacked_neg {a : UnpackedFloat} (h : a.neg.isFinite = true) :
    a.isFinite = true := by
  cases a with
  | infinity s => cases h
  | notANumber => cases h
  | zero s => rfl
  | finite s m e hm => rfl

theorem not_lt_of_lt_infinite {a b : UnpackedFloat} (ha : a.isFinite = true)
    (hb : b.isFinite = false) (h : a.lt b = true) : b.lt a = false := by
  cases b with
  | infinity s =>
    cases s with
    | positive =>
      cases a with
      | infinity s' => cases ha
      | notANumber => cases ha
      | zero s' => rfl
      | finite s' m e hm => rfl
    | negative =>
      cases a with
      | infinity s' => cases ha
      | notANumber => cases ha
      | zero s' => cases h
      | finite s' m e hm => cases s' <;> cases h
  | notANumber => rfl
  | zero s => cases hb
  | finite s m e hm => cases hb

theorem isNaN_of_unpacked_le {a b : UnpackedFloat} (h : a.le b = true) : a.isNaN = false := by
  cases a with
  | notANumber => cases h
  | _ => rfl

theorem isNaN_of_unpacked_lt {a b : UnpackedFloat} (h : a.lt b = true) : b.isNaN = false := by
  cases b with
  | notANumber => cases a <;> cases h
  | _ => rfl

theorem le_of_not_lt_infinity {a : UnpackedFloat} {s : Sign} (hna : a.isNaN = false)
    (h : UnpackedFloat.lt (.infinity s) a = false) : a.le (.infinity s) = true := by
  cases a with
  | infinity s' =>
    cases s with
    | positive => cases s' <;> rfl
    | negative =>
      cases s' with
      | positive => cases h
      | negative => rfl
  | notANumber => cases hna
  | zero s' =>
    cases s with
    | positive => rfl
    | negative => cases h
  | finite s' m e hm =>
    cases s with
    | positive => rfl
    | negative => cases h

theorem infinity_le_of_not_lt {b : UnpackedFloat} {s : Sign} (hfb : b.isFinite = true)
    (h : b.lt (.infinity s) = false) : UnpackedFloat.le (.infinity s) b = true := by
  cases b with
  | infinity s' => cases hfb
  | notANumber => cases hfb
  | zero s' =>
    cases s with
    | positive => cases h
    | negative => rfl
  | finite s' m e hm =>
    cases s with
    | positive => cases s' <;> cases h
    | negative => rfl

theorem unpacked_le_of_not_lt {a b : UnpackedFloat} (ha : Canonical a) (hb : Canonical b)
    (hna : a.isNaN = false) (hnb : b.isNaN = false) (h : b.lt a = false) : a.le b = true := by
  by_cases hfb : b.isFinite = true
  · by_cases hfa : a.isFinite = true
    · rw [le_iff ha hb hfa hfb, ← not_lt, ← lt_iff hb ha hfb hfa, h]
      exact Bool.false_ne_true
    · cases a with
      | infinity s => exact infinity_le_of_not_lt hfb h
      | notANumber => cases hna
      | _ => exact absurd rfl hfa
  · cases b with
    | infinity s => exact le_of_not_lt_infinity hna h
    | notANumber => cases hnb
    | _ => exact absurd rfl hfb

/-! ### Infinities in the order -/

/-- The place of a defined double in the order, infinities included. -/
def rank : UnpackedFloat → WithBot (WithTop ℚ)
  | .infinity .negative => ⊥
  | .infinity .positive => (⊤ : WithTop ℚ)
  | u => (value u : WithTop ℚ)

theorem rank_of_isFinite {u : UnpackedFloat} (h : u.isFinite = true) :
    rank u = ((value u : WithTop ℚ) : WithBot (WithTop ℚ)) := by
  cases u with
  | infinity s => cases h
  | notANumber => cases h
  | zero s => rfl
  | finite s m e hm => rfl

theorem compare_infinity {a : UnpackedFloat} (ha : a.isFinite = true) :
    UnpackedFloat.compare a (.infinity .positive) = some .lt ∧
      UnpackedFloat.compare a (.infinity .negative) = some .gt ∧
      UnpackedFloat.compare (.infinity .positive) a = some .gt ∧
      UnpackedFloat.compare (.infinity .negative) a = some .lt := by
  cases a with
  | infinity s => cases ha
  | notANumber => cases ha
  | zero s => exact ⟨rfl, rfl, rfl, rfl⟩
  | finite s m e hm => cases s <;> exact ⟨rfl, rfl, rfl, rfl⟩

/-- **Defined doubles compare as their ranks do.** -/
theorem compare_eq_rank {a b : UnpackedFloat} (ha : Canonical a) (hb : Canonical b)
    (hna : a.isNaN = false) (hnb : b.isNaN = false) :
    UnpackedFloat.compare a b = some (compare (rank a) (rank b)) := by
  have hbot : ∀ x : ℚ, (⊥ : WithBot (WithTop ℚ)) < (x : WithTop ℚ) := fun x => WithBot.bot_lt_coe _
  have htop : ∀ x : ℚ, ((x : WithTop ℚ) : WithBot (WithTop ℚ)) < (⊤ : WithTop ℚ) := fun x =>
    WithBot.coe_lt_coe.2 (WithTop.coe_lt_top x)
  by_cases hfa : a.isFinite = true
  · obtain ⟨hpositive, hnegative, -, -⟩ := compare_infinity hfa
    rw [rank_of_isFinite hfa]
    by_cases hfb : b.isFinite = true
    · have hmono : StrictMono fun x : ℚ => ((x : WithTop ℚ) : WithBot (WithTop ℚ)) :=
        WithBot.coe_strictMono.comp WithTop.coe_strictMono
      rw [compare_eq ha hb hfa hfb, rank_of_isFinite hfb, ← cmp_eq_compare, ← cmp_eq_compare,
        ← hmono.cmp_map_eq]
    · cases b with
      | infinity s =>
        cases s with
        | positive => exact hpositive.trans (congrArg some (compare_lt_iff_lt.2 (htop _)).symm)
        | negative => exact hnegative.trans (congrArg some (compare_gt_iff_gt.2 (hbot _)).symm)
      | notANumber => cases hnb
      | _ => exact absurd rfl hfb
  · by_cases hfb : b.isFinite = true
    · obtain ⟨-, -, hpositive, hnegative⟩ := compare_infinity hfb
      rw [rank_of_isFinite hfb]
      cases a with
      | infinity s =>
        cases s with
        | positive => exact hpositive.trans (congrArg some (compare_gt_iff_gt.2 (htop _)).symm)
        | negative => exact hnegative.trans (congrArg some (compare_lt_iff_lt.2 (hbot _)).symm)
      | notANumber => cases hna
      | _ => exact absurd rfl hfa
    · cases a with
      | infinity s =>
        cases b with
        | infinity s' => cases s <;> cases s' <;> rfl
        | notANumber => cases hnb
        | _ => exact absurd rfl hfb
      | notANumber => cases hna
      | _ => exact absurd rfl hfa

theorem eq_of_compare {a b : UnpackedFloat} (ha : UnpackedFloat.compare (.zero .positive) a = some .lt)
    (h : UnpackedFloat.compare a b = some .eq) : a = b := by
  cases a with
  | infinity s =>
    cases s with
    | negative => cases ha
    | positive =>
      cases b with
      | infinity s' => cases s' with
        | positive => rfl
        | negative => cases h
      | _ => cases h
  | notANumber => cases ha
  | zero s => cases ha
  | finite s m e hm =>
    cases s with
    | negative => cases ha
    | positive =>
      cases b with
      | infinity s' => cases s' <;> cases h
      | notANumber => cases h
      | zero s' => cases h
      | finite s' m' e' hm' =>
        cases s' with
        | negative => cases h
        | positive =>
          have hcmp := Option.some.inj h
          obtain ⟨he, hm⟩ := Ordering.then_eq_eq.1 hcmp
          cases Int.compare_eq_eq.1 he
          cases Nat.compare_eq_eq.1 hm
          rfl

/-! ### Doubles -/

section Float

variable {a b c : Float}

theorem lt_unpack : a < b ↔ a.toModel.unpack.lt b.toModel.unpack = true := by
  change decide (a.toModel < b.toModel) = true ↔ _
  rw [decide_eq_true_iff]
  rfl

theorem le_unpack : a ≤ b ↔ a.toModel.unpack.le b.toModel.unpack = true := by
  change decide (a.toModel ≤ b.toModel) = true ↔ _
  rw [decide_eq_true_iff]
  rfl

/-- The number that a finite double stands for. -/
def number (a : Float) : ℚ := value a.toModel.unpack

theorem lt_iff_number (ha : a.isFinite = true) (hb : b.isFinite = true) :
    a < b ↔ number a < number b := by
  rw [lt_unpack]
  exact lt_iff (canonical_unpack _) (canonical_unpack _) ha hb

theorem le_iff_number (ha : a.isFinite = true) (hb : b.isFinite = true) :
    a ≤ b ↔ number a ≤ number b := by
  rw [le_unpack]
  exact le_iff (canonical_unpack _) (canonical_unpack _) ha hb

/-- **A double that is not below a finite one has no negative difference to it**; it may be infinite
or undefined. -/
theorem not_sub_neg (hb : b.isFinite = true) (h : ¬a < b) : ¬a - b < 0 := by
  rw [lt_unpack, Bool.not_eq_true] at h ⊢
  have hzero : (0 : Float).toModel.unpack = .zero .positive := rfl
  rw [hzero]
  refine not_lt_zero_of_unsigned ?_ _
  exact unsigned_unpack_pack (unsigned_sub (canonical_unpack _) (canonical_unpack _) hb h)

theorem isFinite_of_add (h : (a + b).isFinite = true) : a.isFinite = true ∧ b.isFinite = true :=
  isFinite_operands (.inl (isFinite_unpack_pack h))

theorem isFinite_of_sub (h : (a - b).isFinite = true) :
    a.isFinite = true ∧ b.isFinite = true :=
  isFinite_operands (.inr (.inl (isFinite_unpack_pack h)))

theorem isFinite_of_mul (h : (a * b).isFinite = true) : a.isFinite = true ∧ b.isFinite = true :=
  isFinite_operands (.inr (.inr (isFinite_unpack_pack h)))

theorem isFinite_of_div (h : (a / b).isFinite = true) : a.isFinite = true :=
  isFinite_dividend (isFinite_unpack_pack h)

theorem sub_self (ha : a.isFinite = true) : a - a = 0 := by
  change Float.ofModel (Float.Model.pack (UnpackedFloat.sub Format.binary64 a.toModel.unpack
    a.toModel.unpack)) = 0
  rw [unpacked_sub_self ha]
  rfl

theorem isFinite_of_neg (h : (-a).isFinite = true) : a.isFinite = true :=
  isFinite_of_unpacked_neg (isFinite_unpack_pack h)

theorem not_lt_of_lt (ha : a.isFinite = true) (h : a < b) : ¬b < a := by
  by_cases hb : b.isFinite = true
  · rw [lt_iff_number ha hb] at h
    rw [lt_iff_number hb ha]
    exact h.not_gt
  · rw [lt_unpack] at h ⊢
    rw [not_lt_of_lt_infinite ha (Bool.not_eq_true _ ▸ hb) h]
    exact Bool.false_ne_true

theorem isNaN_of_le (h : a ≤ b) : a.isNaN = false :=
  isNaN_of_unpacked_le (le_unpack.1 h)

theorem isNaN_of_lt (h : a < b) : b.isNaN = false :=
  isNaN_of_unpacked_lt (lt_unpack.1 h)

theorem le_iff_of_not_lt (hb : b.isNaN = false) (h : ¬b < a) : a ≤ b ↔ a.isNaN = false := by
  rw [lt_unpack, Bool.not_eq_true] at h
  rw [le_unpack]
  refine ⟨isNaN_of_unpacked_le, fun ha => ?_⟩
  exact unpacked_le_of_not_lt (canonical_unpack _) (canonical_unpack _) ha hb h

theorem compare_unpack (ha : a.isNaN = false) (hb : b.isNaN = false) :
    UnpackedFloat.compare a.toModel.unpack b.toModel.unpack =
      some (compare (rank a.toModel.unpack) (rank b.toModel.unpack)) :=
  compare_eq_rank (canonical_unpack _) (canonical_unpack _) ha hb

/-- Comparisons of doubles are false unless both are defined, and else are those of the ranks. -/
theorem le_iff_rank : a ≤ b ↔ a.isNaN = false ∧ b.isNaN = false ∧
    rank a.toModel.unpack ≤ rank b.toModel.unpack := by
  rw [le_unpack]
  by_cases hb : b.isNaN = false
  · by_cases ha : a.isNaN = false
    · rw [UnpackedFloat.le, compare_unpack ha hb, ← compare_le_iff_le]
      simp only [ha, hb, true_and]
      cases compare (rank a.toModel.unpack) (rank b.toModel.unpack) <;> decide
    · exact ⟨fun h => absurd (isNaN_of_unpacked_le h) ha, fun h => absurd h.1 ha⟩
  · refine ⟨fun h => absurd ?_ hb, fun h => absurd h.2.1 hb⟩
    change b.toModel.unpack.isNaN = false
    cases hu : b.toModel.unpack with
    | notANumber =>
      rw [hu] at h
      cases ha : a.toModel.unpack <;> rw [ha] at h <;> cases h
    | _ => rfl

theorem le_self_iff : a ≤ a ↔ a.isNaN = false := by
  rw [le_iff_rank]
  exact ⟨And.left, fun h => ⟨h, h, le_rfl⟩⟩

theorem lt_iff_not_le (ha : a ≤ a) (hb : b ≤ b) : a < b ↔ ¬b ≤ a := by
  rw [le_self_iff] at ha hb
  rw [le_iff_rank, lt_unpack, UnpackedFloat.lt, compare_unpack ha hb]
  simp only [ha, hb, true_and, not_le, ← compare_lt_iff_lt]
  cases compare (rank a.toModel.unpack) (rank b.toModel.unpack) <;> decide

/-- Positive doubles that are below or equal both ways are the same; the two zeros are not. -/
theorem eq_of_le_of_le (hpos : 0 < a) (hab : a ≤ b) (hba : b ≤ a) : a = b := by
  obtain ⟨ha, hb, hrank⟩ := le_iff_rank.1 hab
  obtain ⟨-, -, hrank'⟩ := le_iff_rank.1 hba
  have hzero : UnpackedFloat.compare (.zero .positive) a.toModel.unpack = some .lt := by
    rw [lt_unpack, show (0 : Float).toModel.unpack = .zero .positive from rfl, UnpackedFloat.lt] at hpos
    exact eq_of_beq hpos
  have hcompare := compare_unpack ha hb
  rw [compare_eq_iff_eq.2 (le_antisymm hrank hrank')] at hcompare
  have hbits := (unpack_inj_of_valid a.toModel.valid b.toModel.valid).1 (eq_of_compare hzero hcompare)
  exact Float.toBits_inj.1 (UInt64.eq_of_toBitVec_eq hbits)

end Float

end Doubles

end PoseFilter
