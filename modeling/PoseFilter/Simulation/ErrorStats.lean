import PoseFilter.PoseState

/-!
# How far an estimate strays

The error of one estimate against the truth, and statistics over a run.
-/

namespace PoseFilter

/-- The distance of two poses. -/
structure PoseError (α : Type) where
  /-- The distance of the positions. -/
  position : α
  /-- The angle between the orientations in degrees. -/
  attitudeDeg : α

/-- The error of an estimate. -/
def PoseError.between {α : Type} [Scalar α] (truth estimate : Pose α) : PoseError α where
  position := (truth.position - estimate.position).norm
  attitudeDeg := Scalar.toDegrees (Rotation.angle truth.orientation estimate.orientation)

/-- Errors summed up. -/
structure ErrorStats (α : Type) where
  /-- How many errors were recorded. -/
  samples : Nat
  sumSqPosition : α
  sumSqAttitude : α
  maxPosition : α
  maxAttitudeDeg : α
  /-- The error recorded last. -/
  last : Option (PoseError α)

namespace ErrorStats

variable {α : Type} [Scalar α]

/-- Nothing recorded. -/
def empty : ErrorStats α := ⟨0, 0, 0, 0, 0, none⟩

/-- One more error. -/
def record (s : ErrorStats α) (e : PoseError α) : ErrorStats α where
  samples := s.samples + 1
  sumSqPosition := s.sumSqPosition + e.position * e.position
  sumSqAttitude := s.sumSqAttitude + e.attitudeDeg * e.attitudeDeg
  maxPosition := Scalar.greater s.maxPosition e.position
  maxAttitudeDeg := Scalar.greater s.maxAttitudeDeg e.attitudeDeg
  last := some e

/-- The root of the mean of squares with the given sum, 0 of none. -/
def rootMean (samples : Nat) (sumSq : α) : α :=
  if samples = 0 then 0 else Scalar.sqrt (sumSq / (samples : α))

/-- The root mean square of the position errors. -/
def rmsPosition (s : ErrorStats α) : α := rootMean s.samples s.sumSqPosition

/-- The root mean square of the attitude errors in degrees. -/
def rmsAttitudeDeg (s : ErrorStats α) : α := rootMean s.samples s.sumSqAttitude

end ErrorStats

end PoseFilter
