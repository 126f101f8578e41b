import PoseFilter.Scalar

/-!
# Dense matrices

Matrices carry their shape in the type, and every operation is given by its entries: `Mat.ofFn`
builds a matrix from a function of row and column, `Mat.get` reads it back, and `Mat.get_ofFn` says
that nothing is lost between them.  A matrix whose shape is only known at run time, such as a
covariance that a caller supplies, is a `Grid`.

* `Mat.ext_get` : two matrices with the same entries are equal.
* `Mat.get_add`, `Mat.get_mul`, … : the entries of the result of each operation.
* `Grid.asMat?_toGrid` : a matrix survives the passage through a `Grid`.
-/

namespace PoseFilter

/-! ### Columns -/

/-- A column of `n` numbers: a tangent vector, an innovation, a list of weights. -/
abbrev Column (α : Type) (n : Nat) : Type := Vector α n

/-- The sum of `n` terms, added from the first to the last. -/
def sum {α : Type} [Scalar α] (n : Nat) (f : Fin n → α) : α :=
  Fin.foldl n (fun acc i => acc + f i) 0

namespace Column

variable {α : Type} {n : Nat}

/-- The column with the given entries. -/
@[inline]
def ofFn (f : Fin n → α) : Column α n := Vector.ofFn f

/-- The entry at an index. -/
@[inline]
def get (v : Column α n) (i : Fin n) : α := v[i.val]

@[simp]
theorem get_ofFn (f : Fin n → α) (i : Fin n) : (ofFn f).get i = f i := by
  simp [ofFn, get]

theorem ext_get {u v : Column α n} (h : ∀ i, u.get i = v.get i) : u = v :=
  Vector.ext fun i hi => h ⟨i, hi⟩

/-- The column of the given numbers, when there are `n` of them. -/
def ofArray? (n : Nat) (a : Array α) : Option (Column α n) :=
  if h : a.size = n then some ⟨a, h⟩ else none

/-- A column with one entry put in front. -/
def cons (x : α) (v : Column α n) : Column α (n + 1) :=
  ofFn fun
    | ⟨0, _⟩ => x
    | ⟨i + 1, h⟩ => v.get ⟨i, Nat.lt_of_succ_lt_succ h⟩

/-- The entries after the first. -/
def tail (v : Column α (n + 1)) : Column α n :=
  ofFn fun i => v.get i.succ

@[simp]
theorem get_cons_zero (x : α) (v : Column α n) : (cons x v).get 0 = x := by
  rw [cons, get_ofFn]
  rfl

@[simp]
theorem get_cons_succ (x : α) (v : Column α n) (i : Fin n) : (cons x v).get i.succ = v.get i := by
  rw [cons, get_ofFn]
  rfl

@[simp]
theorem get_tail (v : Column α (n + 1)) (i : Fin n) : v.tail.get i = v.get i.succ := by simp [tail]

variable [Scalar α]

/-- The column of zeros. -/
def zero : Column α n := ofFn fun _ => 0

/-- Entry by entry sum. -/
def add (u v : Column α n) : Column α n := ofFn fun i => u.get i + v.get i

/-- Entry by entry difference. -/
def sub (u v : Column α n) : Column α n := ofFn fun i => u.get i - v.get i

/-- Every entry with its sign changed. -/
def neg (v : Column α n) : Column α n := ofFn fun i => -v.get i

@[simp]
theorem get_zero (i : Fin n) : (zero : Column α n).get i = 0 := by simp [zero]

@[simp]
theorem get_add (u v : Column α n) (i : Fin n) : (u.add v).get i = u.get i + v.get i := by
  simp [add]

@[simp]
theorem get_sub (u v : Column α n) (i : Fin n) : (u.sub v).get i = u.get i - v.get i := by
  simp [sub]

@[simp]
theorem get_neg (v : Column α n) (i : Fin n) : v.neg.get i = -v.get i := by simp [neg]

/-- The inner product. -/
def dot (u v : Column α n) : α := sum n fun i => u.get i * v.get i

/-- No entry is infinite or undefined. -/
def isFinite (v : Column α n) : Bool := v.all Scalar.isFinite

end Column

/-! ### Matrices of known shape -/

/-- A matrix with `r` rows and `c` columns. -/
structure Mat (α : Type) (r c : Nat) where
  /-- The rows, from the top. -/
  cells : Vector (Vector α c) r
  deriving BEq

namespace Mat

variable {α : Type} {r c k n : Nat}

/-- The matrix with the given entries. -/
@[inline]
def ofFn (f : Fin r → Fin c → α) : Mat α r c := ⟨Vector.ofFn fun i => Vector.ofFn (f i)⟩

/-- The entry in row `i` and column `j`. -/
@[inline]
def get (m : Mat α r c) (i : Fin r) (j : Fin c) : α := m.cells[i.val][j.val]

@[simp]
theorem get_ofFn (f : Fin r → Fin c → α) (i : Fin r) (j : Fin c) : (ofFn f).get i j = f i j := by
  simp [ofFn, get]

theorem ext_get {a b : Mat α r c} (h : ∀ i j, a.get i j = b.get i j) : a = b := by
  cases a with | mk x =>
  cases b with | mk y =>
  congr 1
  exact Vector.ext fun i hi => Vector.ext fun j hj => h ⟨i, hi⟩ ⟨j, hj⟩

theorem ext_toList {a b : Mat α r c}
    (h : a.cells.toList.map Vector.toList = b.cells.toList.map Vector.toList) : a = b := by
  cases a with | mk x =>
  cases b with | mk y =>
  have hrows : Function.Injective (Vector.toList : Vector α c → List α) := fun _ _ => Vector.toList_inj.1
  exact congrArg mk (Vector.toList_inj.1 ((List.map_inj_right fun _ _ h => hrows h).1 h))

theorem ofFn_get (m : Mat α r c) : ofFn m.get = m :=
  ext_get fun i j => get_ofFn m.get i j

/-- Rows and columns exchanged. -/
def transpose (m : Mat α r c) : Mat α c r := ofFn fun i j => m.get j i

/-- One column. -/
def column (m : Mat α r c) (j : Fin c) : Column α r := Column.ofFn fun i => m.get i j

/-- One row, as a column. -/
def row (m : Mat α r c) (i : Fin r) : Column α c := m.cells[i.val]

/-- The entries row by row. -/
def toLists (m : Mat α r c) : List (List α) := m.cells.toList.map Vector.toList

@[simp]
theorem get_transpose (m : Mat α r c) (i : Fin c) (j : Fin r) :
    m.transpose.get i j = m.get j i := by
  simp [transpose]

@[simp]
theorem get_column (m : Mat α r c) (j : Fin c) (i : Fin r) : (m.column j).get i = m.get i j := by
  simp [column]

@[simp]
theorem get_row (m : Mat α r c) (i : Fin r) (j : Fin c) : (m.row i).get j = m.get i j := rfl

variable [Scalar α]

instance : Add (Mat α r c) := ⟨fun a b => ofFn fun i j => a.get i j + b.get i j⟩

instance : Sub (Mat α r c) := ⟨fun a b => ofFn fun i j => a.get i j - b.get i j⟩

instance : HMul (Mat α r k) (Mat α k c) (Mat α r c) :=
  ⟨fun a b => ofFn fun i j => sum k fun l => a.get i l * b.get l j⟩

/-- The matrix of zeros. -/
def zero : Mat α r c := ofFn fun _ _ => 0

/-- A multiple of the identity matrix. -/
def scalar (n : Nat) (x : α) : Mat α n n := ofFn fun i j => (if i = j then 1 else 0) * x

/-- The square matrix with the given diagonal and zeros elsewhere. -/
def diagonal (d : Column α n) : Mat α n n := ofFn fun i j => if i = j then d.get i else 0

/-- Every entry multiplied by one factor. -/
def scale (m : Mat α r c) (s : α) : Mat α r c := ofFn fun i j => m.get i j * s

/-- A matrix applied to a column. -/
def mulColumn (m : Mat α r c) (v : Column α c) : Column α r :=
  Column.ofFn fun i => sum c fun j => m.get i j * v.get j

@[simp]
theorem get_add (a b : Mat α r c) (i : Fin r) (j : Fin c) :
    (a + b).get i j = a.get i j + b.get i j :=
  get_ofFn (fun i j => a.get i j + b.get i j) i j

@[simp]
theorem get_sub (a b : Mat α r c) (i : Fin r) (j : Fin c) :
    (a - b).get i j = a.get i j - b.get i j :=
  get_ofFn (fun i j => a.get i j - b.get i j) i j

@[simp]
theorem get_mul (a : Mat α r k) (b : Mat α k c) (i : Fin r) (j : Fin c) :
    (a * b).get i j = sum k fun l => a.get i l * b.get l j :=
  get_ofFn (fun i j => sum k fun l => a.get i l * b.get l j) i j

@[simp]
theorem get_zero (i : Fin r) (j : Fin c) : (zero : Mat α r c).get i j = 0 := by simp [zero]

@[simp]
theorem get_scalar (x : α) (i j : Fin n) : (scalar n x).get i j = (if i = j then 1 else 0) * x := by
  simp [scalar]

@[simp]
theorem get_diagonal (d : Column α n) (i j : Fin n) :
    (diagonal d).get i j = if i = j then d.get i else 0 := by
  simp [diagonal]

@[simp]
theorem get_scale (m : Mat α r c) (s : α) (i : Fin r) (j : Fin c) :
    (m.scale s).get i j = m.get i j * s := by
  simp [scale]

@[simp]
theorem get_mulColumn (m : Mat α r c) (v : Column α c) (i : Fin r) :
    (m.mulColumn v).get i = sum c fun j => m.get i j * v.get j := by
  simp [mulColumn]

/-- The sum of the diagonal. -/
def trace (m : Mat α n n) : α := sum n fun i => m.get i i

/-- The mean of a matrix and its transpose. -/
def symmetrized (m : Mat α n n) : Mat α n n := (m + m.transpose).scale 0.5

@[simp]
theorem get_symmetrized (m : Mat α n n) (i j : Fin n) :
    m.symmetrized.get i j = (m.get i j + m.get j i) * 0.5 := by
  simp [symmetrized]

/-- No entry is infinite or undefined. -/
def isFinite (m : Mat α r c) : Bool := m.cells.all fun row => row.all Scalar.isFinite

end Mat

/-! ### Matrices of any shape -/

/-- A matrix whose shape is data. -/
structure Grid (α : Type) where
  /-- The number of rows. -/
  rows : Nat
  /-- The number of columns. -/
  cols : Nat
  /-- The entries. -/
  cells : Mat α rows cols

/-- A matrix with its shape made data. -/
def Mat.toGrid {α : Type} {r c : Nat} (m : Mat α r c) : Grid α := ⟨r, c, m⟩

namespace Grid

variable {α : Type}

/-- The number of rows and of columns. -/
def shape (g : Grid α) : Nat × Nat := (g.rows, g.cols)

/-- The entries, when the matrix has the wanted shape. -/
def asMat? (g : Grid α) (r c : Nat) : Option (Mat α r c) :=
  if h : g.rows = r ∧ g.cols = c then some (cast (by rw [h.1, h.2]) g.cells) else none

/-- The entries, when the matrix is square. -/
def asSquare? (g : Grid α) : Option (Mat α g.rows g.rows) := g.asMat? g.rows g.rows

@[simp]
theorem asMat?_toGrid {r c : Nat} (m : Mat α r c) : m.toGrid.asMat? r c = some m := by
  unfold asMat?
  rw [dif_pos ⟨rfl, rfl⟩]
  rfl

theorem asMat?_eq_some {g : Grid α} {r c : Nat} {m : Mat α r c} (h : g.asMat? r c = some m) :
    g = m.toGrid := by
  obtain ⟨a, b, x⟩ := g
  unfold asMat? at h
  split at h
  next hs =>
    obtain ⟨rfl, rfl⟩ := hs
    cases h
    rfl
  next => cases h

/-- The entry at a position, if the position is inside. -/
def get? (g : Grid α) (i j : Nat) : Option α :=
  if h : i < g.rows ∧ j < g.cols then some (g.cells.get ⟨i, h.1⟩ ⟨j, h.2⟩) else none

/-- The entries row by row. -/
def toLists (g : Grid α) : List (List α) := g.cells.toLists

variable [Scalar α]

/-- No entry is infinite or undefined. -/
def isFinite (g : Grid α) : Bool := g.cells.isFinite

end Grid

end PoseFilter
