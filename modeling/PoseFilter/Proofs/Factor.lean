import PoseFilter.Proofs.Exact

/-!
# Factors of exact covariances

Over the real numbers the Cholesky factorization decides positive definiteness, and its factor solves
linear systems exactly.

* `Mat.cholesky?_isSome_iff` : a symmetric matrix has a Cholesky factor iff it is positive definite.
* `Mat.cholesky?_isSome_iff_mirrored` : any matrix has one iff the symmetric matrix with the same lower
  triangle is positive definite.
* `Mat.mulVec_solveFactored` : the two substitutions solve `L Lᵀ x = b`.
-/

open Matrix

namespace PoseFilter

namespace Mat

variable {n : Nat}

/-! ### Blocks -/

@[simp]
theorem get_below (m : Mat ℝ (n + 1) (n + 1)) (i : Fin n) : m.below.get i = m.get i.succ 0 := by
  simp [below]

@[simp]
theorem get_trailing (m : Mat ℝ (n + 1) (n + 1)) (i j : Fin n) :
    m.trailing.get i j = m.get i.succ j.succ := by
  simp [trailing]

@[simp]
theorem get_ofLower_zero_zero (d : ℝ) (l : Column ℝ n) (t : Mat ℝ n n) :
    (ofLower d l t).get 0 0 = d := corner_ofLower d l t

@[simp]
theorem get_ofLower_zero_succ (d : ℝ) (l : Column ℝ n) (t : Mat ℝ n n) (j : Fin n) :
    (ofLower d l t).get 0 j.succ = 0 := by
  rw [ofLower, get_ofFn]
  rfl

@[simp]
theorem get_ofLower_succ_zero (d : ℝ) (l : Column ℝ n) (t : Mat ℝ n n) (i : Fin n) :
    (ofLower d l t).get i.succ 0 = l.get i := by
  rw [← get_below, below_ofLower]

@[simp]
theorem get_ofLower_succ_succ (d : ℝ) (l : Column ℝ n) (t : Mat ℝ n n) (i j : Fin n) :
    (ofLower d l t).get i.succ j.succ = t.get i j := by
  rw [← get_trailing, trailing_ofLower]

theorem dotProduct_mulVec_cons {m : Mat ℝ (n + 1) (n + 1)} (h : m.toMatrix.IsSymm) (a : ℝ)
    (x : Fin n → ℝ) :
    (Fin.cons a x : Fin (n + 1) → ℝ) ⬝ᵥ (m.toMatrix *ᵥ Fin.cons a x) =
      m.corner * a ^ 2 + 2 * a * (m.below.get ⬝ᵥ x) + x ⬝ᵥ (m.trailing.toMatrix *ᵥ x) := by
  have hc : ∀ j : Fin n, m.get 0 j.succ = m.get j.succ 0 := fun j => h.apply j.succ 0
  simp only [dotProduct, mulVec, Fin.sum_univ_succ, Fin.cons_zero, Fin.cons_succ, toMatrix_apply,
    get_below, get_trailing, hc, corner, mul_add, Finset.sum_add_distrib, Finset.mul_sum]
  have hx : ∀ j : Fin n, x j * (m.get j.succ 0 * a) = a * (m.get j.succ 0 * x j) :=
    fun j => by ring
  have h2 : ∀ j : Fin n, 2 * a * (m.get j.succ 0 * x j) = 2 * (a * (m.get j.succ 0 * x j)) :=
    fun j => by ring
  simp only [hx, h2, ← Finset.mul_sum]
  ring

/-! ### The Cholesky factor -/

/-- Zeros above the diagonal and positive numbers on it. -/
structure IsFactor (l : Mat ℝ n n) : Prop where
  lower : ∀ i j, i < j → l.get i j = 0
  pos : ∀ i, 0 < l.get i i

theorem IsFactor.trailing {l : Mat ℝ (n + 1) (n + 1)} (h : l.IsFactor) : l.trailing.IsFactor where
  lower := fun i j hij => by
    rw [get_trailing]
    exact h.lower _ _ (Fin.succ_lt_succ_iff.2 hij)
  pos := fun i => by
    rw [get_trailing]
    exact h.pos _

theorem IsFactor.ofLower {t : Mat ℝ n n} (h : t.IsFactor) {d : ℝ} (hd : 0 < d) (l : Column ℝ n) :
    (Mat.ofLower d l t).IsFactor where
  lower := fun i j hij => by
    cases j using Fin.cases with
    | zero => exact absurd hij (Fin.not_lt_zero _)
    | succ j =>
      cases i using Fin.cases with
      | zero => exact get_ofLower_zero_succ d l t j
      | succ i =>
        rw [get_ofLower_succ_succ]
        exact h.lower i j (Fin.succ_lt_succ_iff.1 hij)
  pos := fun i => by
    cases i using Fin.cases with
    | zero => rwa [get_ofLower_zero_zero]
    | succ i =>
      rw [get_ofLower_succ_succ]
      exact h.pos i

theorem IsFactor.get_zero_succ {l : Mat ℝ (n + 1) (n + 1)} (h : l.IsFactor) (j : Fin n) :
    l.get 0 j.succ = 0 :=
  h.lower _ _ (Fin.succ_pos j)

theorem IsFactor.isUnit {l : Mat ℝ n n} (h : l.IsFactor) : IsUnit l.toMatrix := by
  have ht : l.toMatrix.IsLowerTriangular := fun i j hij => h.lower i j hij
  rw [Matrix.isUnit_iff_isUnit_det, Matrix.det_of_isLowerTriangular _ ht, isUnit_iff_ne_zero]
  exact Finset.prod_ne_zero_iff.2 fun i _ => (h.pos i).ne'

/-- What one step of the factorization leaves to be factored. -/
noncomputable def schur (m : Mat ℝ (n + 1) (n + 1)) : Mat ℝ n n :=
  let l : Column ℝ n := Column.ofFn fun i => m.below.get i / Real.sqrt m.corner
  ofFn fun i j => m.trailing.get i j - l.get i * l.get j

theorem cholesky?_succ (m : Mat ℝ (n + 1) (n + 1)) :
    m.cholesky? = if 0 < m.corner then
      m.schur.cholesky?.map (ofLower (Real.sqrt m.corner)
        (Column.ofFn fun i => m.below.get i / Real.sqrt m.corner))
    else none := rfl

theorem get_schur {m : Mat ℝ (n + 1) (n + 1)} (h : 0 < m.corner) (i j : Fin n) :
    m.schur.get i j = m.get i.succ j.succ - m.get i.succ 0 * m.get j.succ 0 / m.corner := by
  simp only [schur, get_ofFn, Column.get_ofFn, get_below, get_trailing, div_mul_div_comm,
    Real.mul_self_sqrt h.le]

/-- The factor reproduces the lower triangle, which is all that is read. -/
theorem cholesky?_spec : ∀ {n : Nat} {m l : Mat ℝ n n}, m.cholesky? = some l →
    l.IsFactor ∧ ∀ i j, j ≤ i → ∑ k, l.get i k * l.get j k = m.get i j := by
  intro n
  induction n with
  | zero =>
    intro m l _
    exact ⟨⟨fun i => i.elim0, fun i => i.elim0⟩, fun i => i.elim0⟩
  | succ n ih =>
    intro m l h
    rw [cholesky?_succ] at h
    split_ifs at h with hd
    obtain ⟨t, ht, rfl⟩ := Option.map_eq_some_iff.1 h
    obtain ⟨hf, hs⟩ := ih ht
    have h0 := Real.sqrt_pos.2 hd
    refine ⟨hf.ofLower h0 _, fun i j hij => ?_⟩
    -- the first column of the factor gives the first column of `m` and, elsewhere, what was
    -- taken away before the rest was factored
    rw [Fin.sum_univ_succ]
    cases j using Fin.cases with
    | zero =>
      simp only [get_ofLower_zero_succ, mul_zero, Finset.sum_const_zero, add_zero,
        get_ofLower_zero_zero]
      cases i using Fin.cases with
      | zero => rw [get_ofLower_zero_zero, Real.mul_self_sqrt hd.le, corner]
      | succ i =>
        rw [get_ofLower_succ_zero, Column.get_ofFn, get_below, div_mul_cancel₀ _ h0.ne']
    | succ j =>
      cases i using Fin.cases with
      | zero => exact absurd hij (by simp)
      | succ i =>
        simp only [get_ofLower_succ_zero, get_ofLower_succ_succ, Column.get_ofFn, get_below,
          hs i j (Fin.succ_le_succ_iff.1 hij), get_schur hd]
        rw [div_mul_div_comm, Real.mul_self_sqrt hd.le]
        ring

theorem mul_transpose_of_cholesky? {m l : Mat ℝ n n} (h : m.cholesky? = some l)
    (hm : m.toMatrix.IsSymm) : l.toMatrix * l.toMatrixᵀ = m.toMatrix := by
  obtain ⟨-, hs⟩ := cholesky?_spec h
  ext i j
  simp only [Matrix.mul_apply, Matrix.transpose_apply, toMatrix_apply]
  -- only the lower triangle was read: above the diagonal both sides are turned over
  rcases le_total j i with hij | hij
  · exact hs i j hij
  · have hsymm : m.get j i = m.get i j := hm.apply i j
    rw [← hsymm, ← hs j i hij]
    exact Finset.sum_congr rfl fun k _ => mul_comm _ _

/-- The step of the factorization keeps definiteness: the form of the remainder at `x` is the form
of the whole matrix at `x` with the first coordinate chosen best. -/
theorem posDef_schur {m : Mat ℝ (n + 1) (n + 1)} (h : m.toMatrix.PosDef) (hd : 0 < m.corner) :
    m.schur.toMatrix.PosDef := by
  have hsymm : m.toMatrix.IsSymm := isSymm_of_posSemidef h.posSemidef
  refine .of_dotProduct_mulVec_pos ?_ fun x hx => ?_
  · rw [Matrix.isHermitian_iff_isSymm]
    ext i j
    have hij : m.get j.succ i.succ = m.get i.succ j.succ := hsymm.apply i.succ j.succ
    simp only [Matrix.transpose_apply, toMatrix_apply, get_schur hd, hij]
    ring
  · -- the first coordinate that makes the form of `m` least completes the square
    have hne : (Fin.cons (-(m.below.get ⬝ᵥ x) / m.corner) x : Fin (n + 1) → ℝ) ≠ 0 := by
      intro h0
      exact hx (funext fun i => by simpa using congrFun h0 i.succ)
    have hpos := h.dotProduct_mulVec_pos hne
    rw [star_trivial, dotProduct_mulVec_cons hsymm] at hpos
    have hform : x ⬝ᵥ (m.schur.toMatrix *ᵥ x) =
        x ⬝ᵥ (m.trailing.toMatrix *ᵥ x) - (m.below.get ⬝ᵥ x) ^ 2 / m.corner := by
      have hsplit : m.schur.toMatrix =
          m.trailing.toMatrix - (1 / m.corner) • vecMulVec m.below.get m.below.get := by
        ext i j
        simp only [toMatrix_apply, get_schur hd, Matrix.sub_apply, get_trailing, Matrix.smul_apply,
          vecMulVec_apply, get_below, smul_eq_mul]
        ring
      rw [hsplit, sub_mulVec, dotProduct_sub, smul_mulVec, dotProduct_smul, vecMulVec_mulVec,
        op_smul_eq_smul, dotProduct_smul, dotProduct_comm x m.below.get, smul_eq_mul, smul_eq_mul]
      ring
    rw [star_trivial, hform]
    have hcalc : m.corner * (-(m.below.get ⬝ᵥ x) / m.corner) ^ 2 +
        2 * (-(m.below.get ⬝ᵥ x) / m.corner) * (m.below.get ⬝ᵥ x) =
          -((m.below.get ⬝ᵥ x) ^ 2 / m.corner) := by
      field_simp
      ring
    linarith

theorem cholesky?_of_posDef : ∀ {n : Nat} {m : Mat ℝ n n}, m.toMatrix.PosDef →
    ∃ l, m.cholesky? = some l := by
  intro n
  induction n with
  | zero => exact fun {m} _ => ⟨m, rfl⟩
  | succ n ih =>
    intro m h
    have hd : 0 < m.corner := h.diag_pos
    obtain ⟨t, ht⟩ := ih (posDef_schur h hd)
    exact ⟨_, by rw [cholesky?_succ, if_pos hd, ht, Option.map_some]⟩

/-- **The Cholesky factorization decides positive definiteness.** -/
theorem cholesky?_isSome_iff {m : Mat ℝ n n} (hm : m.toMatrix.IsSymm) :
    m.cholesky?.isSome ↔ m.toMatrix.PosDef := by
  constructor
  · intro h
    obtain ⟨l, hl⟩ := Option.isSome_iff_exists.1 h
    rw [← mul_transpose_of_cholesky? hl hm, ← Matrix.conjTranspose_eq_transpose_of_trivial]
    refine .mul_conjTranspose_self _ ?_
    exact Matrix.vecMul_injective_iff_isUnit.2 (cholesky?_spec hl).1.isUnit
  · intro h
    obtain ⟨l, hl⟩ := cholesky?_of_posDef h
    rw [hl]
    rfl

/-! ### The triangle that is read -/

/-- The symmetric matrix with the same lower triangle. -/
def mirrored (m : Mat ℝ n n) : Mat ℝ n n :=
  ofFn fun i j => if j ≤ i then m.get i j else m.get j i

theorem get_mirrored {m : Mat ℝ n n} {i j : Fin n} (h : j ≤ i) : m.mirrored.get i j = m.get i j := by
  rw [mirrored, get_ofFn, if_pos h]

theorem isSymm_mirrored (m : Mat ℝ n n) : m.mirrored.toMatrix.IsSymm := by
  ext i j
  simp only [Matrix.transpose_apply, toMatrix_apply, mirrored, get_ofFn]
  rcases lt_trichotomy i j with h | rfl | h
  · rw [if_pos h.le, if_neg (not_le.2 h)]
  · rfl
  · rw [if_neg (not_le.2 h), if_pos h.le]

theorem mirrored_of_isSymm {m : Mat ℝ n n} (h : m.toMatrix.IsSymm) : m.mirrored = m := by
  refine ext_get fun i j => ?_
  rw [mirrored, get_ofFn]
  split
  · rfl
  · exact h.apply i j

theorem cholesky?_congr : ∀ {n : Nat} {a b : Mat ℝ n n},
    (∀ i j, j ≤ i → a.get i j = b.get i j) → a.cholesky? = b.cholesky? := by
  intro n
  induction n with
  | zero =>
    intro a b _
    exact congrArg some (ext_get fun i => i.elim0)
  | succ n ih =>
    intro a b h
    have hcorner : a.corner = b.corner := h 0 0 le_rfl
    have hbelow : a.below = b.below := by
      refine Column.ext_get fun i => ?_
      rw [get_below, get_below]
      exact h i.succ 0 (Fin.zero_le _)
    rw [cholesky?_succ, cholesky?_succ, hcorner, hbelow]
    by_cases hd : 0 < b.corner
    · rw [if_pos hd, if_pos hd]
      refine congrArg (Option.map _) (ih fun i j hij => ?_)
      have hij' : j.succ ≤ i.succ := Fin.succ_le_succ_iff.2 hij
      rw [get_schur (hcorner ▸ hd), get_schur hd, hcorner, h _ _ hij', h i.succ 0 (Fin.zero_le _),
        h j.succ 0 (Fin.zero_le _)]
    · rw [if_neg hd, if_neg hd]

/-- **The factor decides definiteness of the triangle that is read.** -/
theorem cholesky?_isSome_iff_mirrored (m : Mat ℝ n n) :
    m.cholesky?.isSome ↔ m.mirrored.toMatrix.PosDef := by
  rw [← cholesky?_isSome_iff (isSymm_mirrored m), cholesky?_congr fun i j h => get_mirrored h]

theorem isPositiveDefinite_iff {m : Mat ℝ n n} (hm : m.toMatrix.IsSymm) :
    m.isPositiveDefinite = true ↔ m.toMatrix.PosDef := by
  rw [isPositiveDefinite, isFinite_eq, Bool.true_and]
  exact cholesky?_isSome_iff hm

/-! ### Checks -/

/-- A matrix is symmetric up to `t`, which is relative for entries above one. -/
def SymmetricUpTo (m : Mat ℝ n n) (t : ℝ) : Prop :=
  ∀ i j, |m.get i j - m.get j i| ≤ t * max (max 1 |m.get i j|) |m.get j i|

theorem entriesAgree_iff {m : Mat ℝ n n} {t : ℝ} {i j : Fin n} : entriesAgree t m i j = true ↔
    |m.get i j - m.get j i| ≤ t * max (max 1 |m.get i j|) |m.get j i| := by
  simp only [entriesAgree, Exact.greater_eq, Exact.magnitude_eq, Bool.not_eq_true',
    decide_eq_false_iff_not, not_lt]

/-- **The check for symmetry**, which looks at every pair of entries once. -/
theorem isSymmetric_iff {m : Mat ℝ n n} {t : ℝ} (ht : 0 ≤ t) :
    m.isSymmetric t = true ↔ m.SymmetricUpTo t := by
  simp only [isSymmetric, List.all_eq_true, List.mem_finRange, true_imp_iff, Bool.or_eq_true,
    Bool.not_eq_true', decide_eq_false_iff_not, entriesAgree_iff]
  constructor
  · intro h i j
    rcases lt_trichotomy i j with hij | rfl | hij
    · exact (h i j).resolve_left (not_not.2 hij)
    · rw [sub_self, abs_zero]
      exact mul_nonneg ht (le_max_of_le_left (le_max_of_le_left zero_le_one))
    · rw [abs_sub_comm, max_right_comm]
      exact (h j i).resolve_left (not_not.2 hij)
  · exact fun h i j => .inr (h i j)

theorem isSymmetric_of_isSymm {m : Mat ℝ n n} (hm : m.toMatrix.IsSymm) {t : ℝ} (ht : 0 ≤ t) :
    m.isSymmetric t = true := by
  refine (isSymmetric_iff ht).2 fun i j => ?_
  have hij : m.get i j = m.get j i := hm.apply j i
  rw [hij, sub_self, abs_zero]
  exact mul_nonneg ht (le_max_of_le_left (le_max_of_le_left zero_le_one))

/-! ### Substitution -/

theorem mulVec_solveLower : ∀ {n : Nat} {l : Mat ℝ n n}, l.IsFactor → ∀ b : Column ℝ n,
    l.toMatrix *ᵥ (solveLower l b).get = b.get := by
  intro n
  induction n with
  | zero => exact fun _ _ => funext fun i => i.elim0
  | succ n ih =>
    intro l hl b
    funext i
    have hx := hl.pos 0
    -- the system that is left once the first unknown is known
    have ih' := ih hl.trailing
      (Column.ofFn fun i => b.get i.succ - l.below.get i * (b.get 0 / l.corner))
    simp only [mulVec, dotProduct, Fin.sum_univ_succ, solveLower, Column.get_cons_zero,
      Column.get_cons_succ, toMatrix_apply]
    cases i using Fin.cases with
    | zero =>
      simp only [hl.get_zero_succ, zero_mul, Finset.sum_const_zero, add_zero]
      exact mul_div_cancel₀ _ hx.ne'
    | succ i =>
      have hi := congrFun ih' i
      simp only [mulVec, dotProduct, toMatrix_apply, get_trailing, Column.get_ofFn, get_below] at hi
      simp only [get_below, hi]
      ring

theorem mulVec_solveLowerTransposed : ∀ {n : Nat} {l : Mat ℝ n n}, l.IsFactor →
    ∀ b : Column ℝ n, l.toMatrixᵀ *ᵥ (solveLowerTransposed l b).get = b.get := by
  intro n
  induction n with
  | zero => exact fun _ _ => funext fun i => i.elim0
  | succ n ih =>
    intro l hl b
    funext i
    have hx := hl.pos 0
    have ih' := ih hl.trailing b.tail
    simp only [mulVec, dotProduct, Fin.sum_univ_succ, solveLowerTransposed, Column.get_cons_zero,
      Column.get_cons_succ, Matrix.transpose_apply, toMatrix_apply]
    cases i using Fin.cases with
    | zero =>
      simp only [Column.dot_eq, dotProduct, get_below, corner]
      rw [mul_div_cancel₀ _ hx.ne']
      ring
    | succ i =>
      have hi := congrFun ih' i
      simp only [mulVec, dotProduct, Matrix.transpose_apply, toMatrix_apply, get_trailing,
        Column.get_tail] at hi
      rw [hl.get_zero_succ, zero_mul, zero_add, hi]

/-- **Forward and backward substitution solve the factored system.** -/
theorem mulVec_solveFactored {m l : Mat ℝ n n} (h : m.cholesky? = some l) (hm : m.toMatrix.IsSymm)
    (b : Column ℝ n) : m.toMatrix *ᵥ (l.solveFactored b).get = b.get := by
  have hl := (cholesky?_spec h).1
  rw [← mul_transpose_of_cholesky? h hm, ← mulVec_mulVec, solveFactored,
    mulVec_solveLowerTransposed hl, mulVec_solveLower hl]

theorem get_solveFactored {m l : Mat ℝ n n} (h : m.cholesky? = some l) (hm : m.toMatrix.IsSymm)
    (b : Column ℝ n) : (l.solveFactored b).get = m.toMatrix⁻¹ *ᵥ b.get := by
  have hpd : m.toMatrix.PosDef := (cholesky?_isSome_iff hm).1 (by rw [h]; rfl)
  have hunit := (Matrix.isUnit_iff_isUnit_det _).1 hpd.isUnit
  rw [← mulVec_solveFactored h hm b, mulVec_mulVec, Matrix.nonsing_inv_mul _ hunit, one_mulVec]

end Mat

end PoseFilter
