import PoseFilter.Scalar

/-!
# Vectors of space

Positions, velocities and rotation vectors in the world frame.
-/

namespace PoseFilter

/-- A vector of three-dimensional space. -/
@[ext]
structure Vec3 (α : Type) where
  x : α
  y : α
  z : α
  deriving BEq

namespace Vec3

variable {α : Type} [Scalar α]

/-- The origin. -/
def zero : Vec3 α := ⟨0, 0, 0⟩

instance : Add (Vec3 α) := ⟨fun a b => ⟨a.x + b.x, a.y + b.y, a.z + b.z⟩⟩

instance : Sub (Vec3 α) := ⟨fun a b => ⟨a.x - b.x, a.y - b.y, a.z - b.z⟩⟩

instance : Neg (Vec3 α) := ⟨fun a => ⟨-a.x, -a.y, -a.z⟩⟩

/-- Every component multiplied by one factor. -/
def scale (a : Vec3 α) (s : α) : Vec3 α := ⟨a.x * s, a.y * s, a.z * s⟩

/-- The inner product. -/
def dot (a b : Vec3 α) : α := a.x * b.x + a.y * b.y + a.z * b.z

/-- The Euclidean length. -/
def norm (a : Vec3 α) : α := Scalar.sqrt (a.dot a)

/-- Every component passed through a function. -/
def map {β : Type} (f : α → β) (a : Vec3 α) : Vec3 β := ⟨f a.x, f a.y, f a.z⟩

/-- No component is infinite or undefined. -/
def isFinite (a : Vec3 α) : Bool :=
  Scalar.isFinite a.x && Scalar.isFinite a.y && Scalar.isFinite a.z

omit [Scalar α] in
/-- The components in order. -/
def toList (a : Vec3 α) : List α := [a.x, a.y, a.z]

end Vec3

end PoseFilter
