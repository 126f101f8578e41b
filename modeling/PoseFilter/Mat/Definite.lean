import PoseFilter.Mat.Cholesky

/-!
# Definiteness of covariances

A covariance is checked before it is used.  Strict definiteness is decided by the existence of the
Cholesky factor; semi-definiteness by the spectrum, with a slack of `1e-9` relative to the trace so
that rounding does not turn a singular covariance away.

The spectral decomposition of a symmetric matrix is an operation of the scalars (`Spectral`): on
doubles it is computed by rotations, over the real numbers it is the one whose existence the
spectral theorem states.
-/

namespace PoseFilter

/-- An eigenbasis of a symmetric matrix with its eigenvalues. -/
structure Spectrum (α : Type) (n : Nat) where
  /-- The eigenvalues. -/
  values : Column α n
  /-- The matrix whose columns are the eigenvectors, in the order of `values`. -/
  vectors : Mat α n n

/-- Scalars over which symmetric matrices can be diagonalized. -/
class Spectral (α : Type) extends Scalar α where
  /-- Eigenvalues and orthonormal eigenvectors of a symmetric matrix. -/
  spectrum : {n : Nat} → Mat α n n → Spectrum α n

namespace Mat

/-- The share of the trace by which an eigenvalue may lie below zero. -/
def semidefiniteSlack {α : Type} [Scalar α] : α := 1e-9

section Checks

variable {α : Type} [Scalar α] {n : Nat}

/-- The entries at `(i, j)` and `(j, i)` agree up to a tolerance that is relative for entries above
one. -/
def entriesAgree (tolerance : α) (m : Mat α n n) (i j : Fin n) : Bool :=
  let a := m.get i j
  let b := m.get j i
  let size := Scalar.greater (Scalar.greater 1 (Scalar.magnitude a)) (Scalar.magnitude b)
  !decide (tolerance * size < Scalar.magnitude (a - b))

/-- Symmetric up to a tolerance on every pair of entries across the diagonal. -/
def isSymmetric (tolerance : α) (m : Mat α n n) : Bool :=
  (List.finRange n).all fun i => (List.finRange n).all fun j =>
    !decide (i < j) || entriesAgree tolerance m i j

/-- Finite, with a Cholesky factor. -/
def isPositiveDefinite (m : Mat α n n) : Bool := m.isFinite && m.cholesky?.isSome

end Checks

variable {α : Type} [Spectral α] {n : Nat}

/-- Finite, with no negative entry on the diagonal and no eigenvalue of the symmetric part below
zero by more than the slack. -/
def isPositiveSemidefinite (m : Mat α n n) : Bool :=
  m.isFinite &&
  (List.finRange n).all (fun i => !decide (m.get i i < 0)) &&
    let least := -semidefiniteSlack * Scalar.greater m.trace 1
    (Spectral.spectrum m.symmetrized).values.all fun v => decide (least ≤ v)

/-- The square root of a symmetric matrix by its eigenbasis, eigenvalues below zero taken for
zero. -/
def spectralRoot (m : Mat α n n) : Mat α n n :=
  let s := Spectral.spectrum m.symmetrized
  ofFn fun i k => s.vectors.get i k * Scalar.sqrt (Scalar.greater (s.values.get k) 0)

/-- A matrix `L` with `L Lᵀ = m`: the Cholesky factor if there is one, the spectral root if `m` is
at least semi-definite. -/
def squareRoot? (m : Mat α n n) : Option (Mat α n n) :=
  if m.isFinite then
    match m.cholesky? with
    | some l => some l
    | none => if m.isPositiveSemidefinite then some m.spectralRoot else none
  else none

end Mat

/-! ### Matrices as they are supplied -/

namespace Grid

/-- What the checks find out about a matrix. -/
structure Examination (α : Type) where
  /-- The number of rows. -/
  size : Nat
  /-- Some entry is infinite or undefined. -/
  contentsInvalid : Bool
  /-- Square and symmetric up to the tolerance. -/
  symmetric : Bool
  /-- Square with a Cholesky factor. -/
  positiveDefinite : Bool
  /-- Square and semi-definite up to the slack. -/
  positiveSemidefinite : Bool
  /-- The mean with the transpose, of a square matrix. -/
  symmetrized : Option (Mat α size size)
  /-- A square root. -/
  squareRoot : Option (Mat α size size)

variable {α : Type} [Spectral α]

/-- Every check on one matrix.  A matrix that is not square passes none; one with no entries has no
spectrum, and there is no answer. -/
def examine (g : Grid α) (tolerance : α) : Option (Examination α) :=
  if g.rows = 0 ∧ g.cols = 0 then none
  else some <|
    match g.asSquare? with
    | some m =>
      { size := g.rows
        contentsInvalid := !m.isFinite
        symmetric := m.isSymmetric tolerance
        positiveDefinite := m.isPositiveDefinite
        positiveSemidefinite := m.isPositiveSemidefinite
        symmetrized := some m.symmetrized
        squareRoot := m.squareRoot? }
    | none =>
      { size := g.rows
        contentsInvalid := !g.isFinite
        symmetric := false
        positiveDefinite := false
        positiveSemidefinite := false
        symmetrized := none
        squareRoot := none }

end Grid

end PoseFilter
