import PoseFilter.Proofs.Factor

/-!
# What the check for semi-definiteness decides

Over the real numbers the spectral check of a matrix is a statement about its quadratic form: no
eigenvalue lies below `-c` exactly if the matrix plus `c` times the identity is positive
semi-definite (`Mat.forall_le_values_iff`).  So what passes the check is what is semi-definite up to a
slack (`Mat.isPositiveSemidefinite_iff`), whichever eigenbasis was found; every positive semi-definite
matrix, singular or not, does, and has a square root.

* `Mat.inBasis` : the matrices that are diagonal in the eigenbasis of another.  The root that is taken
  from the spectrum, times its transpose, is one of them (`Mat.spectralRoot_eq_inBasis`).
* `Mat.SemidefiniteUpTo` : semi-definite up to a slack; a factor on the matrix is the same factor on
  the slack (`Mat.semidefiniteUpTo_scale`).
* `Mat.squareRoot?_of_posSemidef` : a positive semi-definite `m` has a square root `L` with `L Lᵀ = m`,
  by whichever branch it is found.
* `Mat.squareRoot?_within_slack` : the root of any symmetric matrix.
-/

open Matrix

namespace PoseFilter

namespace Mat

variable {n : Nat}

/-! ### Matrices in the eigenbasis of another -/

section InBasis

variable [Diagonalization] {m : Mat ℝ n n} {d e : Fin n → ℝ}

/-- The matrix with the eigenvectors of `m` and the given eigenvalues. -/
noncomputable def inBasis (m : Mat ℝ n n) (d : Fin n → ℝ) : Matrix (Fin n) (Fin n) ℝ :=
  (Diagonalization.spectrum m).vectors.toMatrix * Matrix.diagonal d *
    (Diagonalization.spectrum m).vectors.toMatrixᵀ

theorem inBasis_values (hm : m.toMatrix.IsSymm) :
    m.inBasis (Diagonalization.spectrum m).values.get = m.toMatrix :=
  Diagonalization.reconstruct hm

theorem inBasis_add (m : Mat ℝ n n) (d e : Fin n → ℝ) :
    m.inBasis (fun i => d i + e i) = m.inBasis d + m.inBasis e := by
  rw [inBasis, ← diagonal_add, Matrix.mul_add, Matrix.add_mul]
  rfl

theorem inBasis_sub (m : Mat ℝ n n) (d e : Fin n → ℝ) :
    m.inBasis (fun i => d i - e i) = m.inBasis d - m.inBasis e := by
  rw [inBasis, ← diagonal_sub, Matrix.mul_sub, Matrix.sub_mul]
  rfl

theorem inBasis_const (hm : m.toMatrix.IsSymm) (c : ℝ) : m.inBasis (fun _ => c) = c • 1 := by
  have hortho := mul_eq_one_comm.1 (Diagonalization.orthonormal hm)
  rw [inBasis, ← Matrix.smul_one_eq_diagonal, Matrix.mul_smul, Matrix.mul_one, Matrix.smul_mul, hortho]

theorem inBasis_posSemidef_iff (hm : m.toMatrix.IsSymm) :
    (m.inBasis d).PosSemidef ↔ ∀ i, 0 ≤ d i := by
  have hunit : IsUnit (Diagonalization.spectrum m).vectors.toMatrix :=
    IsUnit.of_mul_eq_one_right _ (Diagonalization.orthonormal hm)
  have hconj := Matrix.IsUnit.posSemidef_star_right_conjugate_iff (x := Matrix.diagonal d) hunit
  rw [Matrix.star_eq_conjTranspose, Matrix.conjTranspose_eq_transpose_of_trivial] at hconj
  exact hconj.trans posSemidef_diagonal_iff

/-- **No eigenvalue lies below `-c`** exactly if the matrix plus `c` times the identity is positive
semi-definite. -/
theorem forall_le_values_iff (hm : m.toMatrix.IsSymm) {c : ℝ} :
    (∀ i, -c ≤ (Diagonalization.spectrum m).values.get i) ↔ (m.toMatrix + c • 1).PosSemidef := by
  have hsum : m.inBasis (fun i => (Diagonalization.spectrum m).values.get i + c) =
      m.toMatrix + c • 1 := by
    rw [inBasis_add, inBasis_values hm, inBasis_const hm]
  rw [← hsum, inBasis_posSemidef_iff hm]
  exact forall_congr' fun i => neg_le_iff_add_nonneg

/-- The root from the spectrum, times its transpose, has the eigenvalues of the matrix with those
below zero taken for zero. -/
theorem spectralRoot_eq_inBasis (hm : m.toMatrix.IsSymm) :
    m.spectralRoot.toMatrix * m.spectralRoot.toMatrixᵀ =
      m.inBasis fun k => max ((Diagonalization.spectrum m).values.get k) 0 := by
  have hroot : m.spectralRoot.toMatrix = (Diagonalization.spectrum m).vectors.toMatrix *
      Matrix.diagonal fun k => Real.sqrt (max ((Diagonalization.spectrum m).values.get k) 0) := by
    ext i k
    rw [toMatrix_apply, spectralRoot, get_ofFn, symmetrized_of_isSymm hm, Exact.greater_eq,
      mul_diagonal]
    rfl
  have hsquare : ∀ k, Real.sqrt (max ((Diagonalization.spectrum m).values.get k) 0) *
      Real.sqrt (max ((Diagonalization.spectrum m).values.get k) 0) =
        max ((Diagonalization.spectrum m).values.get k) 0 :=
    fun k => Real.mul_self_sqrt (le_max_right _ _)
  rw [hroot, Matrix.transpose_mul, diagonal_transpose, ← Matrix.mul_assoc,
    Matrix.mul_assoc _ (Matrix.diagonal _) (Matrix.diagonal _), diagonal_mul_diagonal]
  simp only [hsquare]
  rfl

end InBasis

/-! ### Semi-definite up to a slack -/

/-- No negative entry on the diagonal, and the quadratic form is bounded below by `-slack` times the
squared length. -/
structure SemidefiniteUpTo (slack : ℝ) (m : Mat ℝ n n) : Prop where
  diag_nonneg : ∀ i, 0 ≤ m.get i i
  posSemidef : (m.symmetrized.toMatrix + slack • 1).PosSemidef

namespace SemidefiniteUpTo

variable {m : Mat ℝ n n} {slack slack' : ℝ}

theorem mono (h : m.SemidefiniteUpTo slack) (hle : slack ≤ slack') : m.SemidefiniteUpTo slack' := by
  refine ⟨h.diag_nonneg, ?_⟩
  have hsplit : m.symmetrized.toMatrix + slack' • 1 =
      m.symmetrized.toMatrix + slack • 1 + (slack' - slack) • (1 : Matrix (Fin n) (Fin n) ℝ) := by
    rw [add_assoc, ← add_smul, add_sub_cancel]
  rw [hsplit]
  exact h.posSemidef.add (Matrix.PosSemidef.one.smul (sub_nonneg.2 hle))

theorem of_posSemidef (h : m.toMatrix.PosSemidef) (hslack : 0 ≤ slack) :
    m.SemidefiniteUpTo slack := by
  refine ⟨fun i => h.diag_nonneg (i := i), ?_⟩
  rw [symmetrized_of_isSymm (isSymm_of_posSemidef h)]
  exact h.add (Matrix.PosSemidef.one.smul hslack)

end SemidefiniteUpTo

theorem trace_scale (m : Mat ℝ n n) (s : ℝ) : (m.scale s).trace = s * m.trace := by
  simp only [trace, Exact.sum_eq, get_scale, ← Finset.sum_mul, mul_comm s]

theorem symmetrized_scale (m : Mat ℝ n n) (s : ℝ) :
    (m.scale s).symmetrized = m.symmetrized.scale s := by
  refine ext_get fun i j => ?_
  simp only [get_symmetrized, get_scale]
  ring

theorem isSymm_symmetrized (m : Mat ℝ n n) : m.symmetrized.toMatrix.IsSymm := by
  ext i j
  simp only [Matrix.transpose_apply, toMatrix_apply, get_symmetrized, add_comm]

theorem semidefiniteUpTo_scale {m : Mat ℝ n n} {s slack : ℝ} (hs : 0 < s) :
    (m.scale s).SemidefiniteUpTo (s * slack) ↔ m.SemidefiniteUpTo slack := by
  have hsum : (m.scale s).symmetrized.toMatrix + (s * slack) • 1 =
      s • (m.symmetrized.toMatrix + slack • 1) := by
    rw [symmetrized_scale, toMatrix_scale, smul_add, smul_smul]
  constructor
  · rintro ⟨hdiag, hform⟩
    refine ⟨fun i => ?_, ?_⟩
    · have hi := hdiag i
      rw [get_scale] at hi
      exact nonneg_of_mul_nonneg_left hi hs
    · rw [hsum] at hform
      have hback := hform.smul (inv_nonneg.2 hs.le)
      rwa [smul_smul, inv_mul_cancel₀ hs.ne', one_smul] at hback
  · rintro ⟨hdiag, hform⟩
    refine ⟨fun i => ?_, ?_⟩
    · rw [get_scale]
      exact mul_nonneg (hdiag i) hs.le
    · rw [hsum]
      exact hform.smul hs.le

/-! ### The check -/

theorem slack_nonneg (m : Mat ℝ n n) : (0 : ℝ) ≤ 1e-9 * max m.trace 1 :=
  mul_nonneg (by norm_num) (le_max_of_le_right zero_le_one)

section Check

variable [Diagonalization]

/-- **The check passes what is semi-definite up to the slack**, in whatever eigenbasis. -/
theorem isPositiveSemidefinite_iff {m : Mat ℝ n n} :
    m.isPositiveSemidefinite = true ↔ m.SemidefiniteUpTo (1e-9 * max m.trace 1) := by
  have hslack : (semidefiniteSlack : ℝ) = 1e-9 := rfl
  have hvalues : ((Spectral.spectrum m.symmetrized).values.all fun v =>
      decide (-semidefiniteSlack * Scalar.greater m.trace 1 ≤ v)) = true ↔
        (m.symmetrized.toMatrix + (1e-9 * max m.trace 1) • 1).PosSemidef := by
    rw [← forall_le_values_iff (isSymm_symmetrized m), Vector.all_eq_true, Exact.greater_eq, hslack, neg_mul]
    simp only [decide_eq_true_eq]
    exact ⟨fun h i => h i.val i.isLt, fun h i hi => h ⟨i, hi⟩⟩
  rw [isPositiveSemidefinite, isFinite_eq, Bool.true_and, Bool.and_eq_true]
  constructor
  · rintro ⟨hdiag, hall⟩
    refine ⟨fun i => ?_, hvalues.1 hall⟩
    simpa using List.all_eq_true.1 hdiag i (List.mem_finRange i)
  · rintro ⟨hdiag, hform⟩
    refine ⟨List.all_eq_true.2 fun i _ => ?_, hvalues.2 hform⟩
    simpa using hdiag i

/-- **The check passes every positive semi-definite matrix**: no slack is needed. -/
theorem isPositiveSemidefinite_of_posSemidef {m : Mat ℝ n n} (h : m.toMatrix.PosSemidef) :
    m.isPositiveSemidefinite = true :=
  isPositiveSemidefinite_iff.2 (.of_posSemidef h (slack_nonneg m))

theorem squareRoot?_isSome_iff {m : Mat ℝ n n} :
    (∃ l, m.squareRoot? = some l) ↔
      m.mirrored.toMatrix.PosDef ∨ m.isPositiveSemidefinite = true := by
  rw [← cholesky?_isSome_iff_mirrored, squareRoot?, if_pos (isFinite_eq m)]
  cases m.cholesky? with
  | some l => exact ⟨fun _ => .inl rfl, fun _ => ⟨l, rfl⟩⟩
  | none =>
    cases m.isPositiveSemidefinite with
    | true => exact ⟨fun _ => .inr rfl, fun _ => ⟨_, rfl⟩⟩
    | false => exact ⟨fun ⟨l, h⟩ => (nomatch h), fun h => h.elim (nomatch ·) (nomatch ·)⟩

/-! ### Roots -/

theorem squareRoot?_of_cholesky? {m l : Mat ℝ n n} (h : m.cholesky? = some l) :
    m.squareRoot? = some l := by
  rw [squareRoot?, if_pos (isFinite_eq m), h]

theorem eq_spectralRoot_of_squareRoot? {m l : Mat ℝ n n} (hc : m.cholesky? = none)
    (h : m.squareRoot? = some l) : m.isPositiveSemidefinite = true ∧ l = m.spectralRoot := by
  rw [squareRoot?, if_pos (isFinite_eq m), hc] at h
  simp only [Option.ite_none_right_eq_some] at h
  exact ⟨h.1, (Option.some.inj h.2).symm⟩

theorem spectralRoot_mul_transpose {m : Mat ℝ n n} (h : m.toMatrix.PosSemidef) :
    m.spectralRoot.toMatrix * m.spectralRoot.toMatrixᵀ = m.toMatrix := by
  have hsymm : m.toMatrix.IsSymm := isSymm_of_posSemidef h
  have hvalues := (inBasis_posSemidef_iff hsymm).1 ((inBasis_values hsymm).symm ▸ h)
  rw [spectralRoot_eq_inBasis hsymm]
  simp only [max_eq_left (hvalues _)]
  exact inBasis_values hsymm

/-- **A positive semi-definite matrix has a square root**, by one branch or the other. -/
theorem squareRoot?_of_posSemidef {m : Mat ℝ n n} (h : m.toMatrix.PosSemidef) :
    ∃ l, m.squareRoot? = some l ∧ l.toMatrix * l.toMatrixᵀ = m.toMatrix := by
  cases hc : m.cholesky? with
  | some l =>
    exact ⟨l, squareRoot?_of_cholesky? hc, mul_transpose_of_cholesky? hc (isSymm_of_posSemidef h)⟩
  | none =>
    -- singular, and the root is that of the eigenbasis
    refine ⟨m.spectralRoot, ?_, spectralRoot_mul_transpose h⟩
    rw [squareRoot?, if_pos (isFinite_eq m), hc]
    exact if_pos (isPositiveSemidefinite_of_posSemidef h)

/-- What is added to a symmetric matrix when its negative eigenvalues are taken for zero is no more
than the slack that its check allows. -/
theorem spectralRoot_within_slack {m : Mat ℝ n n} (hm : m.toMatrix.IsSymm)
    (h : m.isPositiveSemidefinite = true) :
    (m.spectralRoot.toMatrix * m.spectralRoot.toMatrixᵀ - m.toMatrix).PosSemidef ∧
      ((1e-9 * max m.trace 1) • 1 -
        (m.spectralRoot.toMatrix * m.spectralRoot.toMatrixᵀ - m.toMatrix)).PosSemidef := by
  have hform := (isPositiveSemidefinite_iff.1 h).posSemidef
  rw [symmetrized_of_isSymm hm, ← forall_le_values_iff hm] at hform
  rw [spectralRoot_eq_inBasis hm, ← inBasis_values hm, ← inBasis_sub, ← inBasis_const hm, ← inBasis_sub,
    inBasis_posSemidef_iff hm, inBasis_posSemidef_iff hm]
  refine ⟨fun i => sub_nonneg.2 (le_max_left _ _), fun i => ?_⟩
  rcases le_total 0 ((Diagonalization.spectrum m).values.get i) with hi | hi
  · rw [max_eq_left hi, sub_self, sub_zero]
    exact slack_nonneg m
  · rw [max_eq_right hi]
    linarith [hform i]

/-- **The root of a symmetric matrix.**  There is one exactly if the check for semi-definiteness passes.
Its square is at least the matrix, and exceeds it by no more than the slack of the check; of a matrix
that is positive semi-definite it is the matrix itself.  The Cholesky factor is taken exactly if the
matrix is positive definite, and is lower triangular with a positive diagonal; otherwise the root is the
one from the spectrum. -/
theorem squareRoot?_within_slack {m : Mat ℝ n n} (hm : m.toMatrix.IsSymm) :
    ((∃ l, m.squareRoot? = some l) ↔ m.isPositiveSemidefinite = true) ∧
    (∀ l, m.squareRoot? = some l →
      (l.toMatrix * l.toMatrixᵀ - m.toMatrix).PosSemidef ∧
      ((1e-9 * max m.trace 1) • 1 - (l.toMatrix * l.toMatrixᵀ - m.toMatrix)).PosSemidef) ∧
    (m.toMatrix.PosSemidef →
      ∃ l, m.squareRoot? = some l ∧ l.toMatrix * l.toMatrixᵀ = m.toMatrix) ∧
    (m.isPositiveDefinite = true ↔ m.toMatrix.PosDef) ∧
    (m.isPositiveDefinite = true →
      ∃ l, m.cholesky? = some l ∧ m.squareRoot? = some l ∧ l.IsFactor) ∧
    (m.isPositiveDefinite = false →
      m.cholesky? = none ∧ ∀ l, m.squareRoot? = some l → l = m.spectralRoot) := by
  have hdefinite := isPositiveDefinite_iff hm
  have hfinite : m.isPositiveDefinite = m.cholesky?.isSome := by
    rw [isPositiveDefinite, isFinite_eq, Bool.true_and]
  refine ⟨?_, ?_, squareRoot?_of_posSemidef, hdefinite, ?_, ?_⟩
  · rw [squareRoot?_isSome_iff, mirrored_of_isSymm hm]
    exact ⟨fun h => h.elim (fun hpd => isPositiveSemidefinite_of_posSemidef hpd.posSemidef) id, .inr⟩
  · intro l hl
    cases hc : m.cholesky? with
    | some l' =>
      rw [squareRoot?_of_cholesky? hc] at hl
      cases hl
      rw [mul_transpose_of_cholesky? hc hm, sub_self, sub_zero]
      exact ⟨.zero, Matrix.PosSemidef.one.smul (slack_nonneg m)⟩
    | none =>
      obtain ⟨hsemi, rfl⟩ := eq_spectralRoot_of_squareRoot? hc hl
      exact spectralRoot_within_slack hm hsemi
  · intro hpd
    rw [hfinite] at hpd
    obtain ⟨l, hl⟩ := Option.isSome_iff_exists.1 hpd
    exact ⟨l, hl, squareRoot?_of_cholesky? hl, (cholesky?_spec hl).1⟩
  · intro hnot
    rw [hfinite] at hnot
    have hc := Option.isSome_eq_false_iff.1 hnot
    rw [Option.isNone_iff_eq_none] at hc
    exact ⟨hc, fun l hl => (eq_spectralRoot_of_squareRoot? hc hl).2⟩

end Check

/-! ### Two coupled axes -/

/-- A multiple of the identity whose first two axes are coupled; its least eigenvalue is `a - b`. -/
def coupled (n : Nat) (a b : ℝ) : Mat ℝ (n + 2) (n + 2) :=
  ofFn fun i j => if i = j then a else if i.val + j.val = 1 then b else 0

theorem isSymm_coupled (n : Nat) (a b : ℝ) : (coupled n a b).toMatrix.IsSymm := by
  ext i j
  simp only [Matrix.transpose_apply, toMatrix_apply, coupled, get_ofFn, eq_comm (a := i),
    add_comm i.val]

theorem trace_coupled (n : Nat) (a b : ℝ) : (coupled n a b).trace = (n + 2) * a := by
  simp [trace, coupled]

/-- The sum of the first two axes, as a column. -/
def firstTwo (n : Nat) : Fin (n + 2) → ℝ := fun i => if i.val ≤ 1 then 1 else 0

theorem toMatrix_coupled (n : Nat) (a b : ℝ) : (coupled n a b).toMatrix =
    (a - b) • 1 + b • (vecMulVec (firstTwo n) (firstTwo n) +
      Matrix.diagonal fun i : Fin (n + 2) => if i.val ≤ 1 then 0 else 1) := by
  ext i j
  simp only [toMatrix_apply, coupled, get_ofFn, firstTwo, Matrix.add_apply, Matrix.smul_apply,
    Matrix.one_apply, vecMulVec_apply, Matrix.diagonal_apply, smul_eq_mul]
  by_cases hij : i = j
  · subst hij
    by_cases hi : i.val ≤ 1 <;> simp [hi]
  · have hsum : i.val + j.val = 1 ↔ i.val ≤ 1 ∧ j.val ≤ 1 := by
      have hne : i.val ≠ j.val := fun h => hij (Fin.ext h)
      omega
    by_cases hi : i.val ≤ 1 <;> by_cases hj : j.val ≤ 1 <;> simp [hij, hsum, hi, hj]

theorem coupled_mulVec (n : Nat) (a b : ℝ) :
    (coupled n a b).toMatrix *ᵥ (Pi.single 0 1 - Pi.single 1 1) =
      (a - b) • (Pi.single 0 1 - Pi.single 1 1) := by
  have horthogonal : firstTwo n ⬝ᵥ (Pi.single 0 1 - Pi.single 1 1) = 0 := by
    simp [firstTwo, dotProduct_sub]
  have hrest : (Matrix.diagonal fun i : Fin (n + 2) => if i.val ≤ 1 then (0 : ℝ) else 1) *ᵥ
      (Pi.single 0 1 - Pi.single 1 1) = 0 := by
    simp [mulVec_sub]
  rw [toMatrix_coupled, add_mulVec, smul_mulVec, one_mulVec, smul_mulVec, add_mulVec, hrest,
    vecMulVec_mulVec, horthogonal]
  simp

theorem semidefiniteUpTo_coupled_iff {a b slack : ℝ} (ha : 0 ≤ a) (hb : 0 ≤ b) :
    (coupled n a b).SemidefiniteUpTo slack ↔ b ≤ a + slack := by
  constructor
  · rintro ⟨-, hform⟩
    rw [symmetrized_of_isSymm (isSymm_coupled n a b)] at hform
    have hpos := hform.dotProduct_mulVec_nonneg (Pi.single 0 1 - Pi.single 1 1)
    rw [add_mulVec, coupled_mulVec, smul_mulVec, one_mulVec, ← add_smul, dotProduct_smul,
      star_trivial] at hpos
    have hlength : (Pi.single 0 1 - Pi.single 1 1 : Fin (n + 2) → ℝ) ⬝ᵥ
        (Pi.single 0 1 - Pi.single 1 1) = 2 := by
      simp [dotProduct_sub]
      norm_num
    rw [hlength, smul_eq_mul] at hpos
    linarith
  · intro hle
    refine ⟨fun i => by simpa [coupled] using ha, ?_⟩
    have hrest : (Matrix.diagonal fun i : Fin (n + 2) => if i.val ≤ 1 then (0 : ℝ) else 1).PosSemidef :=
      posSemidef_diagonal_iff.2 fun i => by split <;> norm_num
    have hsplit : (coupled n a b).toMatrix + slack • 1 = (a - b + slack) • 1 +
        b • (vecMulVec (firstTwo n) (firstTwo n) +
          Matrix.diagonal fun i : Fin (n + 2) => if i.val ≤ 1 then 0 else 1) := by
      rw [toMatrix_coupled, add_smul]
      abel
    have houter : (vecMulVec (firstTwo n) (firstTwo n)).PosSemidef := by
      simpa using Matrix.posSemidef_vecMulVec_self_star (firstTwo n)
    rw [symmetrized_of_isSymm (isSymm_coupled n a b), hsplit]
    exact (Matrix.PosSemidef.one.smul (by linarith)).add ((houter.add hrest).smul hb)

/-- Two axes coupled by a little more than their variance: indefinite, and within the slack. -/
theorem squareRoot?_within_slack_coupled :
    let m := coupled 0 1 (1 + 1e-10)
    m.toMatrix.IsSymm ∧ ¬m.toMatrix.PosSemidef ∧ m.isPositiveDefinite = false ∧
      m.squareRoot? = some m.spectralRoot ∧
      (m.spectralRoot.toMatrix * m.spectralRoot.toMatrixᵀ - m.toMatrix).PosSemidef ∧
      ((1e-9 * max m.trace 1) • 1 -
        (m.spectralRoot.toMatrix * m.spectralRoot.toMatrixᵀ - m.toMatrix)).PosSemidef := by
  intro m
  have hsymm : m.toMatrix.IsSymm := isSymm_coupled 0 1 (1 + 1e-10)
  have hnot : ¬m.toMatrix.PosSemidef := by
    intro h
    have hle := (semidefiniteUpTo_coupled_iff (by norm_num) (by norm_num)).1
      (SemidefiniteUpTo.of_posSemidef h le_rfl)
    norm_num at hle
  have hcheck : m.isPositiveSemidefinite = true := by
    rw [isPositiveSemidefinite_iff, semidefiniteUpTo_coupled_iff (by norm_num) (by norm_num),
      trace_coupled]
    norm_num
  obtain ⟨hroot, hbounds, -, hdefinite, -, hspectral⟩ := squareRoot?_within_slack hsymm
  have hfalse : m.isPositiveDefinite = false :=
    Bool.eq_false_iff.2 fun h => hnot (hdefinite.1 h).posSemidef
  obtain ⟨l, hl⟩ := hroot.2 hcheck
  obtain rfl := (hspectral hfalse).2 l hl
  exact ⟨hsymm, hnot, hfalse, hl, hbounds _ hl⟩

end Mat

end PoseFilter
