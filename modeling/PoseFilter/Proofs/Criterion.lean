import PoseFilter.Proofs.SigmaPoints
import PoseFilter.Proofs.Phases

/-!
# Which covariances have sigma points

A corrected covariance is written if it is semi-definite up to a slack, and the next correction takes
a square root of it.  The root is not taken of the covariance, though, but of the covariance times the
spread, and the slack has an absolute part that is not scaled along.  So the sigma points have a
criterion of their own (`SigmaPoints.generate_isOk_iff`): where the check of a corrected covariance
allows an eigenvalue `-1e-9 · max (tr P) 1`, the sigma points allow `-1e-9 · max (tr P) (1 / spread)`.

* The two agree where the trace decides both, or where the spread is one.
* With a spread of at most one, as the standard parameters have it, the sigma points are the more
  lenient: what was written can be corrected again.
* Otherwise there are covariances that one accepts and the other refuses, in both directions
  (`SigmaPoints.criteria_differ`).
-/

open Matrix

namespace PoseFilter

namespace Mat

variable {n : Nat} {p : Mat ℝ n n} {spread : ℝ}

theorem mirrored_scale (p : Mat ℝ n n) (s : ℝ) : (p.scale s).mirrored = p.mirrored.scale s := by
  refine ext_get fun i j => ?_
  simp only [mirrored, get_ofFn, get_scale]
  split <;> rfl

theorem posDef_mirrored_scale_iff (h : 0 < spread) :
    (p.scale spread).mirrored.toMatrix.PosDef ↔ p.mirrored.toMatrix.PosDef := by
  rw [mirrored_scale, toMatrix_scale]
  constructor
  · intro hscaled
    have hback := hscaled.smul (inv_pos.2 h)
    rwa [smul_smul, inv_mul_cancel₀ h.ne', one_smul] at hback
  · exact fun hp => hp.smul h

/-- **The check of a scaled matrix**: the absolute part of the slack is divided by the factor. -/
theorem isPositiveSemidefinite_scale_iff [Diagonalization] (h : 0 < spread) :
    (p.scale spread).isPositiveSemidefinite = true ↔
      p.SemidefiniteUpTo (1e-9 * max p.trace (1 / spread)) := by
  have hslack : 1e-9 * max (p.scale spread).trace 1 =
      spread * (1e-9 * max p.trace (1 / spread)) := by
    rw [trace_scale, mul_left_comm, mul_max_of_nonneg _ _ h.le, mul_one_div_cancel h.ne']
  rw [isPositiveSemidefinite_iff, hslack, semidefiniteUpTo_scale h]

end Mat

namespace SigmaPoints

section Generate

variable [Diagonalization] {S : Type} [FilterState S ℝ] {state : S}
  {p : Mat ℝ (FilterState.dim S) (FilterState.dim S)} {params : UnscentedParams ℝ}
  {w : SigmaWeights ℝ (FilterState.dim S)}

open FilterState

theorem generate_isOk_iff_squareRoot? (hp : covariance state = p.toGrid)
    (hw : params.weights (dim S) = .ok w) :
    (∃ points, generate state params = .ok points) ↔
      ∃ l, (p.scale w.spread).squareRoot? = some l := by
  cases h : (p.scale w.spread).squareRoot? with
  | none =>
    rw [generate_of_no_root hp hw h]
    exact ⟨fun ⟨_, h'⟩ => (nomatch h'), fun ⟨_, h'⟩ => (nomatch h')⟩
  | some l => exact ⟨fun _ => ⟨l, rfl⟩, fun _ => ⟨_, generate_of_root hp hw h⟩⟩

theorem generate_eq_error_of_not_isOk (hp : covariance state = p.toGrid)
    (hw : params.weights (dim S) = .ok w) (h : ¬∃ points, generate state params = .ok points) :
    generate state params = .error .covarianceNotPositiveDefinite := by
  rw [generate_isOk_iff_squareRoot? hp hw] at h
  exact generate_of_no_root hp hw (Option.eq_none_iff_forall_ne_some.2 fun l hl => h ⟨l, hl⟩)

/-- **Which covariances have sigma points.** -/
theorem generate_isOk_iff (hp : covariance state = p.toGrid) (hw : params.weights (dim S) = .ok w) :
    (∃ points, generate state params = .ok points) ↔
      p.mirrored.toMatrix.PosDef ∨ p.SemidefiniteUpTo (1e-9 * max p.trace (1 / w.spread)) := by
  have hspread := (UnscentedParams.weights_spec hw).spread_pos
  rw [generate_isOk_iff_squareRoot? hp hw, Mat.squareRoot?_isSome_iff,
    Mat.posDef_mirrored_scale_iff hspread, Mat.isPositiveSemidefinite_scale_iff hspread]

theorem generate_isOk_iff_of_isSymm (hp : covariance state = p.toGrid)
    (hw : params.weights (dim S) = .ok w) (hsymm : p.toMatrix.IsSymm) :
    (∃ points, generate state params = .ok points) ↔
      p.SemidefiniteUpTo (1e-9 * max p.trace (1 / w.spread)) := by
  have hspread := (UnscentedParams.weights_spec hw).spread_pos
  have hslack : (0 : ℝ) ≤ 1e-9 * max p.trace (1 / w.spread) :=
    mul_nonneg (by norm_num) (le_max_of_le_right (one_div_pos.2 hspread).le)
  rw [generate_isOk_iff hp hw, Mat.mirrored_of_isSymm hsymm]
  exact ⟨fun h => h.elim (fun hpd => .of_posSemidef hpd.posSemidef hslack) id, .inr⟩

end Generate

theorem covariance_of_commit [Diagonalization] {m : Nat}
    {c : Correction (PoseState ℝ) ℝ PoseState.dim m} {s : PoseState ℝ} (h : c.commit = ⟨.ok (), s⟩) :
    ∃ p : Mat ℝ PoseState.dim PoseState.dim, s.covariance = p.toGrid ∧ p.toMatrix.IsSymm ∧
      p.isPositiveSemidefinite = true := by
  have hcorrected := (Correction.commit_eq_ok_iff (S := PoseState ℝ)).1 h
  obtain ⟨-, -, p, -, hcheck, rfl⟩ := (Correction.corrected_eq_ok_iff (S := PoseState ℝ)).1 hcorrected
  exact ⟨_, rfl, Mat.isSymm_symmetrized _, hcheck⟩

/-- **The sigma points have a criterion of their own.**  A state has sigma points exactly if the lower
triangle of its covariance is positive definite or the covariance is semi-definite up to a slack whose
absolute part is divided by the spread; otherwise the covariance is reported.  The check of a corrected
covariance has the same slack without the spread.  For a symmetric covariance the two agree if the
spread is one, or if the trace outweighs the absolute part of both; and with a spread of at most one,
every covariance that a correction has written has sigma points. -/
theorem criterion_depends_on_spread [Diagonalization] {s : PoseState ℝ}
    {p : Mat ℝ PoseState.dim PoseState.dim} (hp : s.covariance = p.toGrid)
    {params : UnscentedParams ℝ} {w : SigmaWeights ℝ PoseState.dim}
    (hw : params.weights PoseState.dim = .ok w) :
    ((∃ points, generate s params = .ok points) ↔
      p.mirrored.toMatrix.PosDef ∨ p.SemidefiniteUpTo (1e-9 * max p.trace (1 / w.spread))) ∧
    ((¬∃ points, generate s params = .ok points) →
      generate s params = .error .covarianceNotPositiveDefinite) ∧
    (p.isPositiveSemidefinite = true ↔ p.SemidefiniteUpTo (1e-9 * max p.trace 1)) ∧
    (p.toMatrix.IsSymm → (w.spread = 1 ∨ 1 ≤ p.trace ∧ 1 ≤ w.spread * p.trace) →
      ((∃ points, generate s params = .ok points) ↔ p.isPositiveSemidefinite = true)) ∧
    (w.spread ≤ 1 → ∀ (m : Nat) (c : Correction (PoseState ℝ) ℝ PoseState.dim m) (s' : PoseState ℝ),
      c.commit = ⟨.ok (), s'⟩ → ∃ points, generate s' params = .ok points) := by
  have hspread := (UnscentedParams.weights_spec hw).spread_pos
  refine ⟨generate_isOk_iff hp hw, generate_eq_error_of_not_isOk hp hw,
    Mat.isPositiveSemidefinite_iff, ?_, ?_⟩
  · intro hsymm hagree
    rw [generate_isOk_iff_of_isSymm (S := PoseState ℝ) hp hw hsymm, Mat.isPositiveSemidefinite_iff]
    rcases hagree with hone | ⟨htrace, hscaled⟩
    · rw [hone, div_one]
    · have hinv : 1 / w.spread ≤ p.trace := (div_le_iff₀' hspread).2 hscaled
      rw [max_eq_left htrace, max_eq_left hinv]
  · intro hle m c s' hcommit
    obtain ⟨p', hp', hsymm, hcheck⟩ := covariance_of_commit hcommit
    rw [generate_isOk_iff_of_isSymm (S := PoseState ℝ) hp' hw hsymm]
    refine (Mat.isPositiveSemidefinite_iff.1 hcheck).mono ?_
    have hone : 1 ≤ 1 / w.spread := one_le_one_div hspread hle
    gcongr

/-! ### Two coupled axes -/

/-- A body at rest whose first two axes are coupled. -/
noncomputable def coupledState (a b : ℝ) : PoseState ℝ :=
  { PoseState.initial with covariance := (Mat.coupled 10 a b).toGrid }

theorem trace_coupled_pose (a b : ℝ) : (Mat.coupled 10 a b).trace = 12 * a := by
  rw [Mat.trace_coupled]
  norm_num

section Coupled

variable [Diagonalization] {a b : ℝ}

theorem check_coupled_iff (ha : 0 ≤ a) (hb : 0 ≤ b) :
    (Mat.coupled 10 a b).isPositiveSemidefinite = true ↔ b ≤ a + 1e-9 * max (12 * a) 1 := by
  rw [Mat.isPositiveSemidefinite_iff, trace_coupled_pose, Mat.semidefiniteUpTo_coupled_iff ha hb]

theorem generate_coupled_iff (ha : 0 ≤ a) (hb : 0 ≤ b) {params : UnscentedParams ℝ}
    {w : SigmaWeights ℝ PoseState.dim} (hw : params.weights PoseState.dim = .ok w) :
    (∃ points, generate (coupledState a b) params = .ok points) ↔
      b ≤ a + 1e-9 * max (12 * a) (1 / w.spread) := by
  rw [← Mat.semidefiniteUpTo_coupled_iff (n := 10) ha hb, ← trace_coupled_pose a b]
  exact generate_isOk_iff_of_isSymm (S := PoseState ℝ) rfl hw (Mat.isSymm_coupled 10 a b)

end Coupled

/-- The parameters whose spread is the dimension of the state. -/
noncomputable def wide : UnscentedParams ℝ := ⟨1, 2.0, 0⟩

theorem exists_weights_wide : ∃ w, wide.weights PoseState.dim = .ok w ∧ w.spread = 12 := by
  have hspread : (PoseState.dim : ℝ) + wide.lambda PoseState.dim = 12 := by
    norm_num [UnscentedParams.lambda, wide, PoseState.dim]
  obtain ⟨w, hw⟩ := UnscentedParams.exists_weights (p := wide) (n := PoseState.dim)
    (by norm_num [wide]) (by rw [hspread]; norm_num)
  exact ⟨w, hw, (UnscentedParams.weights_spec hw).spread_eq.trans hspread⟩

/-- Two axes coupled by a little more than their variance, with a trace that decides. -/
theorem criterion_depends_on_spread_coupled :
    (Mat.coupled 10 1 (1 + 1e-8)).isPositiveSemidefinite = true ∧
      ∃ points, generate (coupledState 1 (1 + 1e-8)) wide = .ok points := by
  obtain ⟨w, hw, hspread⟩ := exists_weights_wide
  have hcheck : (Mat.coupled 10 1 (1 + 1e-8)).isPositiveSemidefinite = true := by
    rw [check_coupled_iff (by norm_num) (by norm_num)]
    norm_num
  have hlarge : 1 ≤ (Mat.coupled 10 1 (1 + 1e-8)).trace ∧
      1 ≤ w.spread * (Mat.coupled 10 1 (1 + 1e-8)).trace := by
    rw [trace_coupled_pose, hspread]
    norm_num
  obtain ⟨-, -, -, hagree, -⟩ := criterion_depends_on_spread (s := coupledState 1 (1 + 1e-8)) rfl hw
  exact ⟨hcheck, (hagree (Mat.isSymm_coupled 10 1 (1 + 1e-8)) (.inr hlarge)).2 hcheck⟩

/-- **The two criteria differ in both directions.**  With the standard parameters, two axes coupled by a
millionth more than their variance have sigma points, though no correction would write them; with a
spread of twelve, a covariance that a correction would write has no sigma points. -/
theorem criteria_differ :
    ((Mat.coupled 10 1 (1 + 1e-6)).isPositiveSemidefinite = false ∧
      ∃ points, generate (coupledState 1 (1 + 1e-6)) UnscentedParams.standard = .ok points) ∧
    ((Mat.coupled 10 0.01 (0.01 + 5e-10)).isPositiveSemidefinite = true ∧
      generate (coupledState 0.01 (0.01 + 5e-10)) wide = .error .covarianceNotPositiveDefinite) := by
  refine ⟨⟨?_, ?_⟩, ?_, ?_⟩
  · rw [Bool.eq_false_iff, ne_eq, check_coupled_iff (by norm_num) (by norm_num)]
    norm_num
  · obtain ⟨w, hw⟩ := UnscentedParams.exists_weights_standard (n := PoseState.dim) (by decide)
    have hspread : w.spread = 12e-6 := by
      rw [(UnscentedParams.weights_spec hw).spread_eq]
      norm_num [UnscentedParams.lambda, UnscentedParams.standard, PoseState.dim]
    rw [generate_coupled_iff (by norm_num) (by norm_num) hw, hspread]
    norm_num
  · rw [check_coupled_iff (by norm_num) (by norm_num)]
    norm_num
  · obtain ⟨w, hw, hspread⟩ := exists_weights_wide
    refine generate_eq_error_of_not_isOk (S := PoseState ℝ) rfl hw ?_
    rw [generate_coupled_iff (by norm_num) (by norm_num) hw, hspread]
    norm_num

end SigmaPoints

end PoseFilter
