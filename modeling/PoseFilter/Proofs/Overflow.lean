import PoseFilter.Proofs.Blame
import PoseFilter.Proofs.Rounding

/-!
# Sigma points whose weights overflow

Parameters of the unscented transform are accepted if they are finite and `n + λ` is positive.  In
doubles that is not enough to compute with the weights: `λ` squares `α`, and the square of a finite
double may be infinite.

What is accepted can go wrong in two places only, the spread and the part of the central weight that
is added for covariances.  The quotients in between are safe.  A sum of doubles that is not zero is not
small compared to its terms, so neither `λ / (n + λ)` nor `0.5 / (n + λ)` is above `2 ^ 56`, however
much of `n` and `λ` cancels.

* `SigmaWeights.Usable` : the spread and all weights can be computed with.
* `UnscentedParams.usable_iff` : accepted weights are usable exactly if the two sums are finite.
* `UnscentedParams.usable_of_moderate` : which they are up to a size that no setting comes near.
* `SigmaPoints.generate_of_infinite_spread` : with an infinite spread no state has sigma points, and the
  state is blamed for it.
-/

namespace PoseFilter

open Doubles

/-! ### What is accepted -/

section Accepted

variable {α : Type} [Scalar α] {n : Nat} {p : UnscentedParams α} {w : SigmaWeights α n}

/-- The term by which the weight of the centre for covariances exceeds that for means. -/
def UnscentedParams.surplus (p : UnscentedParams α) : α := 1 - p.alpha * p.alpha + p.beta

/-- What accepted weights are, over any scalars. -/
structure SigmaWeights.Formed (w : SigmaWeights α n) (p : UnscentedParams α) : Prop where
  alpha_finite : Scalar.isFinite p.alpha = true
  beta_finite : Scalar.isFinite p.beta = true
  kappa_finite : Scalar.isFinite p.kappa = true
  alpha_pos : 0 < p.alpha
  spread_eq : w.spread = (n : α) + p.lambda n
  spread_pos : 0 < w.spread
  mean_eq : ∀ i, w.mean.get i = if i.val = 0 then p.lambda n / w.spread else 0.5 / w.spread
  covariance_eq : ∀ i, w.covariance.get i =
    if i.val = 0 then p.lambda n / w.spread + p.surplus else 0.5 / w.spread

theorem UnscentedParams.formed_weights (h : p.weights n = .ok w) : w.Formed p := by
  unfold weights at h
  dsimp only at h
  split_ifs at h with halpha hscaling hspread
  cases h
  obtain ⟨hfinite, hpos⟩ := halpha
  rw [Bool.or_eq_true, not_or, Bool.not_eq_true', Bool.not_eq_false, Bool.not_eq_true',
    Bool.not_eq_false] at hscaling
  exact {
    alpha_finite := hfinite
    beta_finite := hscaling.1
    kappa_finite := hscaling.2
    alpha_pos := hpos
    spread_eq := rfl
    spread_pos := hspread
    mean_eq := fun i => Column.get_ofFn _ i
    covariance_eq := fun i => Column.get_ofFn _ i }

theorem TrackerConfig.exists_weights {c : TrackerConfig α} (h : c.validate = .ok ()) :
    ∃ w, c.params.weights PoseState.dim = .ok w := by
  cases hw : c.params.weights PoseState.dim with
  | ok w => exact ⟨w, rfl⟩
  | error e =>
    -- whatever is checked before, the settings are turned away
    unfold validate at h
    simp only [hw, bind, Except.bind] at h
    split_ifs at h
    cases hgate : c.gate with
    | none =>
      rw [hgate] at h
      cases h
    | some gate =>
      rw [hgate] at h
      dsimp only at h
      split_ifs at h

end Accepted

/-! ### Bounded doubles -/

namespace Doubles

variable {x : ℚ} {a b : Float} {j k : Nat}

/-- Finite and not above a power of two. -/
structure Within (k : Nat) (a : Float) : Prop where
  isFinite : a.isFinite = true
  size_le : |number a| ≤ 2 ^ k

theorem Within.mono (h : Within j a) (hle : j ≤ k) : Within k a :=
  ⟨h.isFinite, h.size_le.trans (pow_le_pow_right₀ one_le_two hle)⟩

/-- Rounding at most doubles a bound, and below half the largest power nothing overflows. -/
theorem Rounded.within (h : Rounded x a) (hx : |x| ≤ 2 ^ k) (hk : k < 1023) : Within (k + 1) a := by
  have hone : (1 : ℚ) ≤ 2 ^ k := one_le_pow₀ one_le_two
  have hhalf : halfUnit x ≤ 2 ^ k := by
    refine max_le ((div_le_self (abs_nonneg x) (by norm_num)).trans hx) (le_trans ?_ hone)
    exact (div_le_one₀ (by positivity)).2 (one_le_pow₀ one_le_two)
  have hsum : |x| + halfUnit x ≤ 2 ^ (k + 1) := by
    rw [pow_succ, mul_two]
    exact add_le_add hx hhalf
  have hfinite := h.isFinite (hsum.trans_lt (pow_lt_pow_right₀ one_lt_two (by omega)))
  refine ⟨hfinite, ?_⟩
  calc |number a| = |x + (number a - x)| := by rw [add_sub_cancel]
    _ ≤ |x| + |number a - x| := abs_add_le _ _
    _ ≤ |x| + halfUnit x := by gcongr; exact h.close hfinite
    _ ≤ 2 ^ (k + 1) := hsum

theorem Within.add (ha : Within k a) (hb : Within k b) (hk : k < 1022) :
    Within (k + 2) (a + b) := by
  refine (rounded_add ha.isFinite hb.isFinite).within ((abs_add_le _ _).trans ?_) (by omega)
  rw [pow_succ, mul_two]
  exact add_le_add ha.size_le hb.size_le

theorem Within.sub (ha : Within k a) (hb : Within k b) (hk : k < 1022) :
    Within (k + 2) (a - b) := by
  refine (rounded_sub ha.isFinite hb.isFinite).within ((abs_sub _ _).trans ?_) (by omega)
  rw [pow_succ, mul_two]
  exact add_le_add ha.size_le hb.size_le

theorem Within.mul (ha : Within j a) (hb : Within k b) (hjk : j + k < 1023) :
    Within (j + k + 1) (a * b) := by
  refine (rounded_mul ha.isFinite hb.isFinite).within ?_ hjk
  rw [abs_mul, pow_add]
  exact mul_le_mul ha.size_le hb.size_le (abs_nonneg _) (by positivity)

theorem within_one : Within 0 1 := ⟨rfl, by rw [number_one, abs_one, pow_zero]⟩

theorem within_ofNat {n : Nat} (hn : n ≤ 2 ^ k) (hk : k < 1021) : Within (k + 2) (Float.ofNat n) := by
  have hle : |(n : ℚ)| ≤ 2 ^ k := by
    rw [abs_of_nonneg (Nat.cast_nonneg n)]
    exact_mod_cast hn
  by_cases hsmall : n < 2 ^ 53
  · obtain ⟨hproduct, hrounded⟩ := ofNat_eq_mul hsmall
    rw [hproduct]
    exact (hrounded.within hle (by omega)).mul within_one (by omega)
  · exact ((rounded_ofNat (not_lt.1 hsmall)).within hle (by omega)).mono (by omega)

/-! ### Quotients by a sum -/

theorem Rounded.le_two_mul (h : Rounded x a) (ha : a.isFinite = true) (hpos : 0 < a) :
    0 < x ∧ x ≤ 2 * number a := by
  have hleast := least_le_value (proper_unpack ha) (number_pos hpos ha)
  change 1 / 2 ^ 1074 ≤ number a at hleast
  have htwice : (1 : ℚ) / 2 ^ 1074 = 2 * (1 / 2 ^ 1075) := by
    rw [pow_succ (2 : ℚ) 1074, mul_one_div, div_mul_cancel_right₀ two_ne_zero, one_div]
  have hunit : (0 : ℚ) < 1 / 2 ^ 1075 := by positivity
  have hclose := h.close ha
  rw [htwice] at hleast
  rw [halfUnit] at hclose
  generalize (1 : ℚ) / 2 ^ 1075 = unit at *
  rcases le_max_iff.1 hclose with hclose | hclose
  · have hpos' : 0 < x := by
      by_contra hneg
      rw [abs_of_nonpos (not_lt.1 hneg)] at hclose
      linarith [(abs_le.1 hclose).2]
    rw [abs_of_pos hpos'] at hclose
    exact ⟨hpos', by linarith [(abs_le.1 hclose).1]⟩
  · obtain ⟨hlow, hhigh⟩ := abs_le.1 hclose
    exact ⟨by linarith, by linarith⟩

/-- **A quotient by a sum is not large**, whatever cancels, if the dividend does not exceed both terms of
the sum. -/
theorem within_div_sum {c : Float} (ha : a.isFinite = true) (hb : b.isFinite = true)
    (hc : c.isFinite = true) (hsum : (a + b).isFinite = true) (hpos : 0 < a + b)
    (hle : |number c| ≤ max |number a| |number b|) :
    Within 56 (c / (a + b)) := by
  obtain ⟨hexact, hrounded⟩ := (rounded_add ha hb).le_two_mul hsum hpos
  have hdivisor := number_pos hpos hsum
  have hterms : max |number a| |number b| ≤ 2 ^ 54 * (number a + number b) := by
    have hterm : |number a| ≤ 2 ^ 54 * |number a + number b| :=
      abs_value_le_sum (proper_unpack ha) (proper_unpack hb) hexact.ne'
    have hterm' : |number b| ≤ 2 ^ 54 * |number b + number a| :=
      abs_value_le_sum (proper_unpack hb) (proper_unpack ha)
        ((add_comm (number a) (number b)).symm.trans_ne hexact.ne')
    rw [abs_of_pos hexact] at hterm
    rw [add_comm, abs_of_pos hexact] at hterm'
    exact max_le hterm hterm'
  have hquotient : |number c / number (a + b)| ≤ 2 ^ 55 := by
    rw [abs_div, abs_of_pos hdivisor, div_le_iff₀ hdivisor]
    linarith
  exact (rounded_div hc hsum hdivisor.ne').within hquotient (by norm_num)

/-- What is not large can be added to every double: the largest one is too far from the next power of
two. -/
theorem Within.isFinite_add (ha : Within 56 a) (hb : b.isFinite = true) :
    (a + b).isFinite = true := by
  refine (rounded_add ha.isFinite hb).isFinite ?_
  have hle := ha.size_le
  have hlargest := abs_number_le hb
  have hsum := abs_add_le (number a) (number b)
  have hpow : (2 : ℚ) ^ 971 = 2 ^ 53 * 2 ^ 918 := by rw [← pow_add]
  have hpow' : (2 : ℚ) ^ 1024 = 2 ^ 106 * 2 ^ 918 := by rw [← pow_add]
  have hroom : (2 : ℚ) ^ 57 < 2 ^ 918 := pow_lt_pow_right₀ one_lt_two (by norm_num)
  have hsmall : (1 : ℚ) / 2 ^ 1075 < 1 :=
    (div_lt_one (by positivity)).2 (one_lt_pow₀ one_lt_two (by norm_num))
  rw [hpow, hpow'] at hlargest
  rw [hpow', halfUnit]
  clear hpow hpow'
  generalize (2 : ℚ) ^ 918 = gap at *
  generalize (1 : ℚ) / 2 ^ 1075 = unit at *
  have hhalf : max (|number a + number b| / 2 ^ 53) unit < 2 ^ 106 * gap - |number a + number b| := by
    refine max_lt ?_ ?_ <;> linarith
  linarith

end Doubles

/-! ### Usable weights -/

/-- Weights that can be computed with: neither the spread nor any of them overflows. -/
structure SigmaWeights.Usable {n : Nat} (w : SigmaWeights Float n) : Prop where
  spread_pos : 0 < w.spread
  spread_finite : w.spread.isFinite = true
  mean_finite : ∀ i, (w.mean.get i).isFinite = true
  covariance_finite : ∀ i, (w.covariance.get i).isFinite = true

namespace UnscentedParams

variable {n : Nat} {p : UnscentedParams Float} {w : SigmaWeights Float n}

/-- **Only two sums can overflow.**  Accepted weights are usable exactly if the spread and the surplus of
the central weight are finite. -/
theorem usable_iff (hn : 1 ≤ n) (h : p.weights n = .ok w) :
    w.Usable ↔ w.spread.isFinite = true ∧ p.surplus.isFinite = true := by
  have hformed := formed_weights h
  constructor
  · intro hw
    have hcenter := hw.covariance_finite ⟨0, by omega⟩
    rw [hformed.covariance_eq, if_pos rfl] at hcenter
    exact ⟨hw.spread_finite, (isFinite_of_add hcenter).2⟩
  · rintro ⟨hspread, hsurplus⟩
    have hpos := hformed.spread_pos
    have hspread' := hspread
    rw [hformed.spread_eq] at hspread' hpos
    obtain ⟨hdim, hlambda⟩ := isFinite_of_add hspread'
    have hhalf : |number 0.5| ≤ number (n : Float) := by
      rw [number_half, abs_of_pos one_half_pos]
      exact half_le_number_ofNat hn hdim
    -- both weights are divided by the spread, whose two terms may cancel
    have hcenter : Within 56 (p.lambda n / w.spread) := by
      rw [hformed.spread_eq]
      exact within_div_sum hdim hlambda hlambda hspread' hpos (le_max_right _ _)
    have houter : Within 56 (0.5 / w.spread) := by
      rw [hformed.spread_eq]
      exact within_div_sum hdim hlambda rfl hspread' hpos
        (le_max_of_le_left (hhalf.trans (le_abs_self _)))
    refine ⟨hformed.spread_pos, hspread, fun i => ?mean, fun i => ?covariance⟩
    case mean =>
      rw [hformed.mean_eq]
      split
      · exact hcenter.isFinite
      · exact houter.isFinite
    case covariance =>
      rw [hformed.covariance_eq]
      split
      · exact hcenter.isFinite_add hsurplus
      · exact houter.isFinite

/-- Neither sum answers for the other: here only the surplus is infinite. -/
example : let p : UnscentedParams Float := ⟨1e154, -1.7e308, -11.5⟩
    (((12 : Nat) : Float) + p.lambda 12).isFinite = true ∧ p.surplus.isFinite = false := by
  decide +kernel

/-- Parameters that are not so large that squares and sums of them overflow. -/
structure Moderate (p : UnscentedParams Float) (n : Nat) : Prop where
  dim : n ≤ 2 ^ 300
  alpha : Within 300 p.alpha
  beta : Within 300 p.beta
  kappa : Within 300 p.kappa

theorem usable_of_moderate (hn : 1 ≤ n) (hp : p.Moderate n) (h : p.weights n = .ok w) : w.Usable := by
  have hsquare : Within 601 (p.alpha * p.alpha) := hp.alpha.mul hp.alpha (by norm_num)
  have hdim : Within 302 (n : Float) := within_ofNat hp.dim (by norm_num)
  rw [usable_iff hn h, (formed_weights h).spread_eq]
  constructor
  · have hsum : Within 304 ((n : Float) + p.kappa) :=
      hdim.add (hp.kappa.mono (by norm_num)) (by norm_num)
    have hproduct : Within 906 (p.alpha * p.alpha * ((n : Float) + p.kappa)) :=
      hsquare.mul hsum (by norm_num)
    have hlambda : Within 908 (p.lambda n) :=
      hproduct.sub (hdim.mono (by norm_num)) (by norm_num)
    exact ((hdim.mono (by norm_num)).add hlambda (by norm_num)).isFinite
  · have hrest : Within 603 (1 - p.alpha * p.alpha) :=
      (within_one.mono (by norm_num)).sub hsquare (by norm_num)
    exact (hrest.add (hp.beta.mono (by norm_num)) (by norm_num)).isFinite

end UnscentedParams

/-! ### States without sigma points -/

section Spread

variable {α : Type} [Spectral α]

theorem Mat.isFinite_get {r c : Nat} {m : Mat α r c} (h : m.isFinite = true) (i : Fin r) (j : Fin c) :
    Scalar.isFinite (m.get i j) = true := by
  rw [Mat.isFinite, Vector.all_eq_true] at h
  have hrow := h i.val i.isLt
  rw [Vector.all_eq_true] at hrow
  exact hrow j.val j.isLt

variable [Absorbing α]

theorem Mat.squareRoot?_scale_of_not_finite {n : Nat} (hn : 0 < n) (m : Mat α n n) {c : α}
    (hc : Scalar.isFinite c = false) : (m.scale c).squareRoot? = none := by
  refine if_neg fun hfinite => ?_
  have hentry := Mat.isFinite_get hfinite ⟨0, hn⟩ ⟨0, hn⟩
  rw [Mat.get_scale] at hentry
  cases hc.symm.trans (Absorbing.mul hentry).2

variable {s : PoseState α} {p : Mat α PoseState.dim PoseState.dim} {params : UnscentedParams α}
  {w : SigmaWeights α PoseState.dim} (hp : s.covariance = p.toGrid)
  (hw : params.weights PoseState.dim = .ok w) (hspread : Scalar.isFinite w.spread = false)

include hp hw hspread

theorem SigmaPoints.generate_of_infinite_spread :
    generate s params = .error .covarianceNotPositiveDefinite :=
  generate_of_no_root (S := PoseState α) hp hw
    (Mat.squareRoot?_scale_of_not_finite (by decide) p hspread)

theorem Tracker.attempt_of_infinite_spread {t : Tracker α} {r : Reading α}
    (hs : t.state = s) (hparams : t.config.params = params)
    (hr : Proposal.soundNoise r.noise = true) :
    t.attempt r.model = (.rejectedInvalid .covarianceNotPositiveDefinite, t.state, []) := by
  subst hs hparams
  have hpropose : propose t.state r.model t.config.params =
      .error .covarianceNotPositiveDefinite := by
    simp only [propose, r.covariance_model, Proposal.checkNoise_toGrid, hr, if_true, bind,
      Except.bind, SigmaPoints.generate_of_infinite_spread hp hw hspread]
  exact attempt_of_rejection rfl (Correction.rejection_of_error hpropose)

end Spread

namespace UnscentedParams

/-- **When accepted parameters are usable.**  For all parameters that pass the check for a dimension,
the spread is positive; it and the weights are finite exactly if the sums `n + λ` and `1 - α² + β` are,
as they are for moderate parameters.  The parameters of all settings that pass their check are accepted.
If their spread overflows, no state has sigma points, and every reading of sound noise is turned away
with an error that the state is blamed for. -/
theorem accepted_usable_iff (p : UnscentedParams Float) :
    (∀ (n : Nat) (w : SigmaWeights Float n), 1 ≤ n → p.weights n = .ok w →
      0 < w.spread ∧
      (w.Usable ↔ w.spread.isFinite = true ∧ p.surplus.isFinite = true) ∧
      (p.Moderate n → w.Usable)) ∧
    ∀ c : TrackerConfig Float, c.params = p → c.validate = .ok () →
      ∃ w, p.weights PoseState.dim = .ok w ∧
        (w.spread.isFinite = false →
          ∀ (t : Tracker Float) (covariance : Mat Float PoseState.dim PoseState.dim),
            t.config = c → t.state.covariance = covariance.toGrid →
              SigmaPoints.generate t.state p = .error .covarianceNotPositiveDefinite ∧
              ∀ r : Reading Float, Proposal.soundNoise r.noise = true →
                (t.correctBy r).result = .rejectedInvalid .covarianceNotPositiveDefinite) := by
  constructor
  · exact fun n w hn h =>
      ⟨(formed_weights h).spread_pos, usable_iff hn h, fun hp => usable_of_moderate hn hp h⟩
  · rintro c rfl hc
    obtain ⟨w, hw⟩ := TrackerConfig.exists_weights hc
    refine ⟨w, hw, fun hspread t covariance ht hp => ⟨?_, fun r hr => ?_⟩⟩
    · exact SigmaPoints.generate_of_infinite_spread hp hw hspread
    · have hattempt := Tracker.attempt_of_infinite_spread hp hw hspread rfl (congrArg _ ht) hr
      rw [Tracker.correctBy_eq]
      exact congrArg Prod.fst hattempt

/-- The standard settings of a tracker have usable weights. -/
theorem accepted_usable_iff_standard :
    (TrackerConfig.standard : TrackerConfig Float).validate = .ok () ∧
      ∃ w, (standard : UnscentedParams Float).weights PoseState.dim = .ok w ∧ w.Usable := by
  obtain ⟨u, hvalid⟩ : ∃ u, (TrackerConfig.standard : TrackerConfig Float).validate = .ok u :=
    exists_ok_of_isOk (by decide +kernel)
  refine ⟨hvalid, ?_⟩
  obtain ⟨w, hw, -⟩ := (accepted_usable_iff standard).2 TrackerConfig.standard rfl hvalid
  obtain ⟨-, husable, -⟩ := (accepted_usable_iff standard).1 PoseState.dim w (by decide) hw
  refine ⟨w, hw, husable.2 ⟨?_, by decide +kernel⟩⟩
  rw [(formed_weights hw).spread_eq]
  decide +kernel

/-- A scaling of `1e200` is finite and passes every check.  Its square is not, and what is left is a
spread without bound and a central weight of infinity by infinity. -/
theorem infinite_spread_accepted :
    let c : TrackerConfig Float := { TrackerConfig.standard with params := ⟨1e200, 2, 0⟩ }
    c.validate = .ok () ∧ ∃ w, c.params.weights PoseState.dim = .ok w ∧ w.spread.isFinite = false ∧
      (w.mean.get 0).isNaN = true ∧ ¬w.Usable := by
  intro c
  obtain ⟨u, hvalid⟩ : ∃ u, c.validate = .ok u := exists_ok_of_isOk (by decide +kernel)
  obtain ⟨w, hw⟩ := TrackerConfig.exists_weights hvalid
  have hformed := formed_weights hw
  have hspread : w.spread.isFinite = false := by
    rw [hformed.spread_eq]
    decide +kernel
  refine ⟨hvalid, w, hw, hspread, ?_, fun h => ?_⟩
  · rw [hformed.mean_eq, hformed.spread_eq]
    decide +kernel
  · cases hspread.symm.trans h.spread_finite

end UnscentedParams

end PoseFilter
