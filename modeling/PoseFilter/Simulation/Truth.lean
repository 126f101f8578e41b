import PoseFilter.Scenario.Basic

/-!
# The true motion

The body of a scenario moves in a straight line and turns about an axis that is fixed in the world,
both at constant speed.
-/

namespace PoseFilter

/-- What is true of the body at one time. -/
structure TrueState (α : Type) where
  pose : Pose α
  linearVelocity : Vec3 α
  angularVelocity : Vec3 α

/-- A motion with constant velocities. -/
structure Truth (α : Type) where
  /-- The pose at time zero. -/
  start : Pose α
  linearVelocity : Vec3 α
  angularVelocity : Vec3 α

namespace Truth

variable {α : Type}

/-- The motion of a scenario's body. -/
def ofBody (b : BodyConfig α) : Truth α := ⟨b.start, b.linearVelocity, b.angularVelocity⟩

/-- What is true at a time. -/
def atTime [Scalar α] (m : Truth α) (time : α) : TrueState α where
  pose :=
    { position := m.start.position + m.linearVelocity.scale time
      orientation := Rotation.ofVector (m.angularVelocity.scale time) * m.start.orientation }
  linearVelocity := m.linearVelocity
  angularVelocity := m.angularVelocity

end Truth

end PoseFilter
