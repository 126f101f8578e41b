import Mathlib
import PoseFilter.Mat.Definite

/-!
# The exact reading

The filter read over the real numbers.  Every number is finite, the elementary functions are those
of analysis, and a matrix is seen as a `Matrix` by `Mat.toMatrix`, a column as the function of its
entries.

* `Mat.toMatrix_mul`, `Mat.toMatrix_add`, … : the view of the result of each operation.
* `Diagonalization` : a choice of an orthonormal eigenbasis for every symmetric matrix, which is all
  that is assumed of the spectral decomposition.  The theorems about the exact filter hold for every
  such choice; `Diagonalization.ofSpectralTheorem` is one.
-/

open Matrix

namespace PoseFilter

noncomputable instance Exact.scalar : Scalar ℝ where
  decLt := fun _ _ => Classical.propDecidable _
  decLe := fun _ _ => Classical.propDecidable _
  sqrt := Real.sqrt
  sin := Real.sin
  cos := Real.cos
  asin := Real.arcsin
  atan2 := fun y x => Complex.arg ⟨x, y⟩
  pow := fun a b => a ^ b
  pi := Real.pi
  seriesCutoff := 1e-13
  isFinite := fun _ => true
  roundNat := fun x => (round x).toNat

namespace Exact

@[simp]
theorem isFinite_eq (x : ℝ) : Scalar.isFinite x = true := rfl

@[simp]
theorem greater_eq (a b : ℝ) : Scalar.greater a b = max a b := by
  unfold Scalar.greater
  by_cases h : a < b
  · rw [if_pos h, max_eq_right h.le]
  · rw [if_neg h, if_pos le_rfl, max_eq_left (not_lt.1 h)]

@[simp]
theorem magnitude_eq (a : ℝ) : Scalar.magnitude a = |a| := by
  unfold Scalar.magnitude
  by_cases h : a < 0
  · rw [if_pos h, abs_of_neg h]
  · rw [if_neg h, abs_of_nonneg (not_lt.1 h)]

@[simp]
theorem sum_eq {n : Nat} (f : Fin n → ℝ) : sum n f = ∑ i, f i := by
  induction n with
  | zero => simp [sum]
  | succ n ih =>
    unfold sum at ih ⊢
    rw [Fin.foldl_succ_last, ih, Fin.sum_univ_castSucc]

end Exact

/-! ### Columns as functions -/

namespace Column

variable {n : Nat}

@[simp]
theorem get_ofFn_eq (f : Fin n → ℝ) : (ofFn f).get = f := funext (get_ofFn f)

theorem dot_eq (u v : Column ℝ n) : u.dot v = u.get ⬝ᵥ v.get := by
  simp [dot, dotProduct]

@[simp]
theorem isFinite_eq (v : Column ℝ n) : v.isFinite = true := by
  simp [isFinite]

theorem get_sub_eq (u v : Column ℝ n) : (u.sub v).get = u.get - v.get := funext (get_sub u v)

end Column

/-! ### Matrices as functions of two indices -/

theorem isSymm_of_posSemidef {n : Nat} {A : Matrix (Fin n) (Fin n) ℝ} (h : A.PosSemidef) :
    A.IsSymm :=
  Matrix.isHermitian_iff_isSymm.1 h.isHermitian

namespace Mat

variable {r c k n : Nat}

/-- The entries of a matrix, as a matrix of linear algebra. -/
def toMatrix (m : Mat ℝ r c) : Matrix (Fin r) (Fin c) ℝ := Matrix.of m.get

/-- The matrix with the given entries. -/
def ofMatrix (m : Matrix (Fin r) (Fin c) ℝ) : Mat ℝ r c := ofFn m

@[simp]
theorem toMatrix_apply (m : Mat ℝ r c) (i : Fin r) (j : Fin c) : m.toMatrix i j = m.get i j := rfl

@[simp]
theorem toMatrix_ofMatrix (m : Matrix (Fin r) (Fin c) ℝ) : (ofMatrix m).toMatrix = m := by
  ext i j
  exact get_ofFn m i j

@[simp]
theorem ofMatrix_toMatrix (m : Mat ℝ r c) : ofMatrix m.toMatrix = m := ofFn_get m

theorem toMatrix_injective : Function.Injective (toMatrix : Mat ℝ r c → _) := by
  intro a b h
  rw [← ofMatrix_toMatrix a, h, ofMatrix_toMatrix]

@[simp]
theorem toMatrix_add (a b : Mat ℝ r c) : (a + b).toMatrix = a.toMatrix + b.toMatrix := by
  ext i j
  simp

@[simp]
theorem toMatrix_sub (a b : Mat ℝ r c) : (a - b).toMatrix = a.toMatrix - b.toMatrix := by
  ext i j
  simp

@[simp]
theorem toMatrix_mul (a : Mat ℝ r k) (b : Mat ℝ k c) :
    (a * b).toMatrix = a.toMatrix * b.toMatrix := by
  ext i j
  simp [Matrix.mul_apply]

@[simp]
theorem toMatrix_transpose (m : Mat ℝ r c) : m.transpose.toMatrix = m.toMatrixᵀ := by
  ext i j
  simp

@[simp]
theorem toMatrix_scale (m : Mat ℝ r c) (s : ℝ) : (m.scale s).toMatrix = s • m.toMatrix := by
  ext i j
  simp [mul_comm]

@[simp]
theorem toMatrix_scalar (x : ℝ) : (scalar n x).toMatrix = x • 1 := by
  ext i j
  simp [Matrix.one_apply, mul_comm]

theorem toMatrix_symmetrized (m : Mat ℝ n n) :
    m.symmetrized.toMatrix = (1 / 2 : ℝ) • (m.toMatrix + m.toMatrixᵀ) := by
  ext i j
  simp only [toMatrix_apply, get_symmetrized, Matrix.smul_apply, Matrix.add_apply,
    Matrix.transpose_apply, smul_eq_mul]
  ring

theorem posDef_scalar {x : ℝ} (hx : 0 < x) : (scalar n x).toMatrix.PosDef := by
  rw [toMatrix_scalar]
  exact Matrix.PosDef.one.smul hx

theorem symmetrized_of_isSymm {m : Mat ℝ n n} (h : m.toMatrix.IsSymm) : m.symmetrized = m := by
  apply toMatrix_injective
  rw [toMatrix_symmetrized, h.eq, ← two_smul ℝ m.toMatrix, smul_smul]
  norm_num

theorem get_mulColumn_eq (m : Mat ℝ r c) (v : Column ℝ c) :
    (m.mulColumn v).get = m.toMatrix *ᵥ v.get := by
  funext i
  simp [Matrix.mulVec, dotProduct]

@[simp]
theorem isFinite_eq (m : Mat ℝ r c) : m.isFinite = true := by
  simp [isFinite]

end Mat

@[simp]
theorem Grid.isFinite_eq (g : Grid ℝ) : g.isFinite = true := Mat.isFinite_eq g.cells

/-! ### The spectral decomposition -/

/-- An exact spectral decomposition: for every symmetric matrix an orthonormal basis of eigenvectors
with their eigenvalues. -/
class Diagonalization where
  /-- The eigenvalues and eigenvectors of a matrix. -/
  spectrum : {n : Nat} → Mat ℝ n n → Spectrum ℝ n
  /-- The eigenvectors are orthonormal. -/
  orthonormal : ∀ {n : Nat} {m : Mat ℝ n n}, m.toMatrix.IsSymm →
    (spectrum m).vectors.toMatrixᵀ * (spectrum m).vectors.toMatrix = 1
  /-- The matrix is diagonal in the basis of its eigenvectors. -/
  reconstruct : ∀ {n : Nat} {m : Mat ℝ n n}, m.toMatrix.IsSymm →
    (spectrum m).vectors.toMatrix * diagonal (spectrum m).values.get *
      (spectrum m).vectors.toMatrixᵀ = m.toMatrix

noncomputable instance Exact.spectral [Diagonalization] : Spectral ℝ where
  toScalar := Exact.scalar
  spectrum := Diagonalization.spectrum

namespace Diagonalization

open Classical in
/-- The decomposition that the spectral theorem provides. -/
noncomputable instance ofSpectralTheorem : Diagonalization where
  spectrum := fun {n} m =>
    if h : m.toMatrix.IsSymm then
      { values := Column.ofFn (Matrix.isHermitian_iff_isSymm.2 h).eigenvalues
        vectors := Mat.ofMatrix (Matrix.isHermitian_iff_isSymm.2 h).eigenvectorUnitary }
    else { values := Column.zero, vectors := Mat.zero }
  orthonormal := by
    intro n m h
    rw [dif_pos h, Mat.toMatrix_ofMatrix]
    exact Unitary.coe_star_mul_self (Matrix.isHermitian_iff_isSymm.2 h).eigenvectorUnitary
  reconstruct := by
    intro n m h
    rw [dif_pos h, Mat.toMatrix_ofMatrix, Column.get_ofFn_eq]
    have hs := (Matrix.isHermitian_iff_isSymm.2 h).spectral_theorem
    rw [Unitary.conjStarAlgAut_apply] at hs
    exact hs.symm

end Diagonalization

end PoseFilter
