import PoseFilter.Mat.Definite
import PoseFilter.Scalar.Floating

/-!
# Diagonalization by plane rotations

The spectrum of a symmetric matrix of doubles.  Each rotation acts on two axes and turns the entry
between them to zero; sweeps over all pairs are repeated until what is left off the diagonal is
negligible, which takes a handful of sweeps.  The matrix is divided by its largest entry first, so
that squares neither overflow nor vanish.

The matrix and the basis are kept in flat arrays, row by row, and are updated in place.
-/

namespace PoseFilter

namespace Jacobi

/-- The entry at a position of a flat array. -/
@[inline]
def entry (a : FloatArray) (i : Nat) : Float :=
  if h : i < a.size then a.get i h else 0

/-- A flat array with one entry replaced. -/
@[inline]
def put (a : FloatArray) (i : Nat) (x : Float) : FloatArray :=
  if h : i < a.size then a.set i x h else a

/-- Two entries replaced by the combinations `c x - s y` and `s x + c y`. -/
@[inline]
def mix (c s : Float) (i j : Nat) (a : FloatArray) : FloatArray :=
  let x := entry a i
  let y := entry a j
  put (put a i (c * x - s * y)) j (s * x + c * y)

/-- Columns `p` and `q` turned in their plane. -/
def turnColumns (n p q : Nat) (c s : Float) (a : FloatArray) : FloatArray :=
  n.fold (fun k _ a => mix c s (k * n + p) (k * n + q) a) a

/-- Rows `p` and `q` turned in their plane. -/
def turnRows (n p q : Nat) (c s : Float) (a : FloatArray) : FloatArray :=
  n.fold (fun k _ a => mix c s (p * n + k) (q * n + k) a) a

/-- A symmetric matrix on its way to diagonal form and the basis reached so far. -/
structure Progress where
  matrix : FloatArray
  basis : FloatArray

/-- The rotation in the plane of `p` and `q` that clears the entry between them. -/
def clear (n p q : Nat) (s : Progress) : Progress :=
  let off := entry s.matrix (p * n + q)
  if off == 0 then s
  else
    let θ := (entry s.matrix (q * n + q) - entry s.matrix (p * n + p)) / (2 * off)
    let t := (if θ < 0 then -1 else 1) / (θ.abs + (θ * θ + 1).sqrt)
    let c := 1 / (t * t + 1).sqrt
    let sine := t * c
    let m := turnRows n p q c sine (turnColumns n p q c sine s.matrix)
    { matrix := put (put m (p * n + q) 0) (q * n + p) 0
      basis := turnColumns n p q c sine s.basis }

/-- One rotation for every pair of axes. -/
def sweep (n : Nat) (s : Progress) : Progress :=
  n.fold (fun p _ s => n.fold (fun q _ s => if p < q then clear n p q s else s) s) s

/-- The sum of the squares off the diagonal, and the sum of all squares. -/
def weights (n : Nat) (a : FloatArray) : Float × Float :=
  n.fold (fun i _ acc => n.fold (fun j _ (off, all) =>
    let x := entry a (i * n + j)
    (if i = j then off else off + x * x, all + x * x)) acc) (0, 0)

/-- Sweeps until the matrix is diagonal to working precision, at most `fuel` of them. -/
def diagonalize (n : Nat) : Nat → Progress → Progress
  | 0, s => s
  | fuel + 1, s =>
    let (off, all) := weights n s.matrix
    if off ≤ 1e-36 * all then s else diagonalize n fuel (sweep n s)

/-- The most sweeps that are ever made. -/
def maxSweeps : Nat := 40

/-- Eigenvalues and eigenvectors of a symmetric matrix. -/
def spectrum {n : Nat} (m : Mat Float n n) : Spectrum Float n :=
  let size := m.cells.foldl (fun acc row => row.foldl (fun acc x => Scalar.greater acc x.abs) acc) 0
  let size := if size == 0 then 1 else size
  let flat : FloatArray :=
    m.cells.foldl (fun acc row => row.foldl (fun acc x => acc.push (x / size)) acc) FloatArray.empty
  let unit : FloatArray :=
    (n * n).fold (fun k _ acc => acc.push (if k / n = k % n then 1 else 0)) FloatArray.empty
  let s := diagonalize n maxSweeps ⟨flat, unit⟩
  { values := Column.ofFn fun i => entry s.matrix (i * n + i) * size
    vectors := Mat.ofFn fun i j => entry s.basis (i * n + j) }

end Jacobi

instance : Spectral Float where
  spectrum := Jacobi.spectrum

end PoseFilter
