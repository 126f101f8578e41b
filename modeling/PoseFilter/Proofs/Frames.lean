import PoseFilter.Proofs.Readings
import PoseFilter.Proofs.Symmetry

/-!
# The choice of frame

Where the axes of the body point and where the world has its origin is a convention.  Another choice
puts one unit quaternion on the right of every orientation and adds one vector to every position.
The filter composes its own rotations on the left and looks at orientations only through quotients
`a b⁻¹`, in which a common right factor cancels, and at positions only through differences.  So a
change of frame is a symmetry (`PoseState.symmetry_seenFrom`), readings in the new frame match those in
the old one (`Reading.matches_seenFrom`), and no run can tell the two frames apart
(`Tracker.frame_unobservable`).
-/

namespace PoseFilter

/-- Another choice of body frame and world origin. -/
structure Frame where
  /-- The factor on the right of every orientation. -/
  turn : Quaternion ℝ
  /-- The factor is a rotation. -/
  isUnit : turn.IsUnit
  /-- What is added to every position. -/
  shift : Vec3 ℝ

/-! ### The same things in another frame -/

/-- A pose in another frame. -/
noncomputable def Pose.seenFrom (f : Frame) (p : Pose ℝ) : Pose ℝ :=
  ⟨p.position + f.shift, p.orientation * f.turn⟩

/-- A state in another frame: velocities and covariance are those of the world's axes and stay. -/
noncomputable def PoseState.seenFrom (f : Frame) (s : PoseState ℝ) : PoseState ℝ :=
  { s with
    position := s.position + f.shift
    orientation := s.orientation * f.turn }

/-- A reading in another frame. -/
noncomputable def Reading.seenFrom (f : Frame) : Reading ℝ → Reading ℝ
  | orientation value noise => orientation (value * f.turn) noise
  | position value noise => position (value + f.shift) noise
  | pose value noise => pose (value.seenFrom f) noise
  | angularVelocity value noise => angularVelocity value noise

/-- An input in another frame. -/
noncomputable def Input.seenFrom (f : Frame) : Input ℝ → Input ℝ
  | timeStep time => timeStep time
  | measurement message => measurement { message with reading := message.reading.seenFrom f }

/-! ### Quotients and differences -/

theorem Vec3.add_sub_add_right (a b c : Vec3 ℝ) : (a + c) - (b + c) = a - b := by
  ext <;> simp

theorem Vec3.add_right_comm (a b c : Vec3 ℝ) : a + b + c = a + c + b := by
  ext <;> simp only [add_x, add_y, add_z] <;> ring

theorem Quaternion.IsUnit.mul_mul_conj_mul {h : Quaternion ℝ} (hh : h.IsUnit) (a b : Quaternion ℝ) :
    a * h * (b * h).conj = a * b.conj := by
  rw [Quaternion.conj_mul, ← Quaternion.mul_assoc, hh.mul_mul_conj]

theorem Rotation.difference_mul_right {h : Quaternion ℝ} (hh : h.IsUnit) (a b : Quaternion ℝ) :
    difference (a * h) (b * h) = difference a b := by
  rw [difference, hh.mul_mul_conj_mul, difference]

theorem Quaternion.IsUnit.normalized_mul_mul {h : Quaternion ℝ} (hh : h.IsUnit)
    (a b : Quaternion ℝ) : (a * (b * h)).normalized = (a * b).normalized * h := by
  rw [← Quaternion.mul_assoc, hh.normalized_mul]

/-! ### A change of frame is a symmetry -/

theorem PoseState.symmetry_seenFrom (f : Frame) : PoseState.Symmetry (seenFrom f) where
  covariance_eq _ := rfl
  retract_eq s δ := by
    have hposition := Vec3.add_right_comm s.position f.shift (block δ 0 (by decide))
    have horientation := f.isUnit.normalized_mul_mul (Rotation.ofVector (block δ 3 (by decide)))
      s.orientation
    simp only [FilterState.retract, retract, seenFrom, hposition, horientation]
  withCovariance_eq _ _ := rfl
  meanIsFinite_eq s := (meanIsFinite_eq _).trans (meanIsFinite_eq s).symm
  advanceMean_eq s dt a := by
    have hposition := Vec3.add_right_comm s.position f.shift ((s.velocity.scale a).scale dt)
    have horientation := f.isUnit.normalized_mul_mul
      (Rotation.ofVector ((s.angularVelocity.scale a).scale dt)) s.orientation
    simp only [Motion.advanceMean, seenFrom, hposition, horientation]

namespace Reading

variable (f : Frame) (r : Reading ℝ)

theorem difference_seenFrom (x y : PoseState ℝ) :
    r.model.difference (r.model.predict (x.seenFrom f)) (r.model.predict (y.seenFrom f)) =
      r.model.difference (r.model.predict x) (r.model.predict y) := by
  have hposition := Vec3.add_sub_add_right x.position y.position f.shift
  have hturn := Rotation.difference_mul_right f.isUnit x.orientation y.orientation
  cases r with
  | orientation q n => exact congrArg Measurement.components hturn
  | position z n => exact congrArg Measurement.components hposition
  | pose z n =>
    exact congrArg₂ (fun u v => Measurement.components u ++ Measurement.components v) hposition hturn
  | angularVelocity z n => rfl

theorem matches_seenFrom (s : PoseState ℝ) : r.Matches (PoseState.seenFrom f) s (r.seenFrom f) := by
  cases r with
  | orientation q n =>
    have hturn := Rotation.difference_mul_right f.isUnit q s.orientation
    exact .intro (difference_seenFrom f _) (congrArg Measurement.components hturn)
  | position z n =>
    have hposition := Vec3.add_sub_add_right z s.position f.shift
    exact .intro (difference_seenFrom f _) (congrArg Measurement.components hposition)
  | pose z n =>
    have hposition := Vec3.add_sub_add_right z.position s.position f.shift
    have hturn := Rotation.difference_mul_right f.isUnit z.orientation s.orientation
    exact .intro (difference_seenFrom f _)
      (congrArg₂ (fun u v => Measurement.components u ++ Measurement.components v) hposition hturn)
  | angularVelocity z n => exact .intro (difference_seenFrom f _) rfl

end Reading

namespace Tracker

variable [Diagonalization]

theorem matches_seenFrom (f : Frame) (t : Tracker ℝ) (input : Input ℝ) :
    t.Matches (PoseState.seenFrom f) input (input.seenFrom f) := by
  cases input with
  | timeStep time => exact .timeStep time
  | measurement message =>
    exact .measurement fun _ s _ => Reading.matches_seenFrom f message.reading s

/-- **The choice of frame cannot be observed.**  Let the state of a tracker be seen from another frame:
its orientation times a unit quaternion and its position shifted.  Let every orientation, position and
pose that is measured be seen from that frame too.  Then every input comes to the same, be it an error
or an outcome with its distance; and after every run the second tracker is the first one seen from the
other frame, with the same covariance, velocities, time and counters. -/
theorem frame_unobservable (f : Frame) (t : Tracker ℝ) (inputs : List (Input ℝ)) :
    (t.mapState (PoseState.seenFrom f)).processAll (inputs.map (Input.seenFrom f)) =
      ((t.processAll inputs).1, (t.processAll inputs).2.mapState (PoseState.seenFrom f)) := by
  refine processAll_mapState (PoseState.symmetry_seenFrom f) (P := fun _ _ => True)
    (R := fun input input' => input' = input.seenFrom f) ?_ ?_ ?_
  · rintro t input _ - rfl
    exact matches_seenFrom f t input
  · rw [List.forall₂_map_right_iff]
    exact List.forall₂_same.2 fun _ _ => rfl
  · exact throughout_of_forall fun _ _ => trivial

end Tracker

end PoseFilter
