import PoseFilter.Mat.Basic

/-!
# The Cholesky factorization

`Mat.cholesky? m` is the lower triangular `L` with `L Lᵀ = m`, found one column at a time: the root
of the corner, the column below it divided by that root, and then the factor of what remains after
the outer product of that column is taken away.  It exists exactly when every corner met on the way
is positive.  Only the lower triangle and the diagonal of `m` are read.

With the factor, `Mat.solveFactored` solves linear systems by one forward and one backward
substitution.
-/

namespace PoseFilter

namespace Mat

variable {α : Type} {n : Nat}

/-! ### A matrix in blocks -/

/-- The entry in the upper left corner. -/
def corner (m : Mat α (n + 1) (n + 1)) : α := m.get 0 0

/-- The first column below the corner. -/
def below (m : Mat α (n + 1) (n + 1)) : Column α n := Column.ofFn fun i => m.get i.succ 0

/-- What remains without the first row and the first column. -/
def trailing (m : Mat α (n + 1) (n + 1)) : Mat α n n := ofFn fun i j => m.get i.succ j.succ

variable [Scalar α]

/-- The matrix with the given corner, column below it and remainder, and zeros to the right of the
corner. -/
def ofLower (d : α) (l : Column α n) (t : Mat α n n) : Mat α (n + 1) (n + 1) :=
  ofFn fun
    | ⟨0, _⟩, ⟨0, _⟩ => d
    | ⟨0, _⟩, ⟨_ + 1, _⟩ => 0
    | ⟨i + 1, h⟩, ⟨0, _⟩ => l.get ⟨i, Nat.lt_of_succ_lt_succ h⟩
    | ⟨i + 1, h⟩, ⟨j + 1, k⟩ =>
      t.get ⟨i, Nat.lt_of_succ_lt_succ h⟩ ⟨j, Nat.lt_of_succ_lt_succ k⟩

@[simp]
theorem corner_ofLower (d : α) (l : Column α n) (t : Mat α n n) : (ofLower d l t).corner = d := by
  rw [corner, ofLower, get_ofFn]
  rfl

@[simp]
theorem below_ofLower (d : α) (l : Column α n) (t : Mat α n n) : (ofLower d l t).below = l := by
  refine Column.ext_get fun i => ?_
  rw [below, Column.get_ofFn, ofLower, get_ofFn]
  rfl

@[simp]
theorem trailing_ofLower (d : α) (l : Column α n) (t : Mat α n n) :
    (ofLower d l t).trailing = t := by
  refine ext_get fun i j => ?_
  rw [trailing, get_ofFn, ofLower, get_ofFn]
  rfl

/-! ### Factor and solution -/

/-- The lower triangular square root, if every pivot is positive. -/
def cholesky? : {n : Nat} → Mat α n n → Option (Mat α n n)
  | 0, m => some m
  | n + 1, m =>
    if 0 < m.corner then
      let root := Scalar.sqrt m.corner
      let col := m.below
      let rest := m.trailing
      let l : Column α n := Column.ofFn fun i => col.get i / root
      (cholesky? (ofFn fun i j => rest.get i j - l.get i * l.get j)).map (ofLower root l)
    else none

/-- The solution of `L x = b` for a lower triangular `L`. -/
def solveLower : {n : Nat} → Mat α n n → Column α n → Column α n
  | 0, _, b => b
  | _ + 1, l, b =>
    let x := b.get 0 / l.corner
    let col := l.below
    Column.cons x (solveLower l.trailing (Column.ofFn fun i => b.get i.succ - col.get i * x))

/-- The solution of `Lᵀ x = b` for a lower triangular `L`. -/
def solveLowerTransposed : {n : Nat} → Mat α n n → Column α n → Column α n
  | 0, _, b => b
  | _ + 1, l, b =>
    let rest := solveLowerTransposed l.trailing b.tail
    Column.cons ((b.get 0 - l.below.dot rest) / l.corner) rest

/-- The solution of `L Lᵀ x = b`. -/
def solveFactored (l : Mat α n n) (b : Column α n) : Column α n :=
  solveLowerTransposed l (solveLower l b)

end Mat

end PoseFilter
