import PoseFilter.Proofs.Euler
import PoseFilter.Proofs.Layering
import PoseFilter.Proofs.Setup

/-!
# A scenario that is written and read again

A written scenario says everything, so nothing of what it is laid over may show when it is read again.
For each part of a scenario this file shows what is read when its tree is laid over the tree of *any*
other such part: the part itself.  There is one exception: a gate that is absent is not written, and
then the gate that lies below is read (`TrackerConfig.ofValue?_layer`).  The standard scenario has none.

The tree has angles in degrees.  Over the real numbers rates come back as they were, and the start
orientation as the same rotation (`Scenario.reloads`).
-/

namespace PoseFilter

open Value

/-! ### The tracker's settings and the run -/

section Settings

variable {α : Type} [Scalar α]

/-- A motion is read from its own word and numbers; damping below a motion that has none is ignored. -/
theorem Motion.ofValue?_layer (base m : Motion α) :
    ofValue? (base.toValue.layer m.toValue) = some m := by
  obtain ⟨position, orientation, damping⟩ := m
  obtain ⟨position', orientation', damping'⟩ := base
  cases damping <;> cases damping' <;>
    simp [ofValue?, toValue, tagged?, Entries.required, Entries.optional_eq, find?_layerEntries,
      constantWord, dampedWord]

theorem UnscentedParams.ofValue?_layer (surplus : Surplus) (base p : UnscentedParams α) :
    ofValue? surplus (base.toValue.layer p.toValue) = some p := by
  rw [ofValue?, toValue, toValue,
    closedRecord?_layer (by simp [Entries.Within]) (by simp [Entries.Within])]
  simp [Entries.optional_eq, find?_layerEntries]

/-- **The gate is the only setting that can come from below.** -/
theorem TrackerConfig.ofValue?_layer (surplus : Surplus) (base c : TrackerConfig α)
    (h : c.maxConsecutiveFailures < UInt32.size) :
    ofValue? surplus (base.toValue.layer c.toValue) =
      some { c with gate := c.gate <|> base.gate } := by
  have hstandard : (standard : TrackerConfig α).gate = none := rfl
  obtain ⟨motion, params, initialCovariance, gate, failures⟩ := c
  obtain ⟨motion', params', initialCovariance', gate', failures'⟩ := base
  -- with or without a gate, above and below: four tables with different keys
  cases gate <;> cases gate' <;>
  · rw [ofValue?, toValue, toValue,
      closedRecord?_layer (by simp [Entries.Within]) (by simp [Entries.Within])]
    simp [Entries.optional_eq, find?_layerEntries, nat?_integer h, gateOfValue?, hstandard,
      Motion.ofValue?_layer, UnscentedParams.ofValue?_layer]

theorem RunConfig.ofValue?_layer (base c : RunConfig α) :
    ofValue? (base.toValue.layer c.toValue) = some c := by
  rw [ofValue?, toValue, toValue,
    closedRecord?_layer (by simp [Entries.Within]) (by simp [Entries.Within])]
  simp [Entries.optional_eq, find?_layerEntries, nat?_integer c.seed.toNat_lt_size]

end Settings

/-! ### Sensors -/

section Sensors

variable {α : Type} [Scalar α]

omit [Scalar α] in
theorem CameraOutput.ofValue?_word (o : CameraOutput) :
    ofValue? (.text o.word : Value α) = some o := by
  cases o <;> simp [ofValue?, word, ofWord?]

namespace SensorConfig

theorem ofValue?_camera {v fields : Value α} (h : v.tagged? "kind" = some ("Camera", fields)) :
    ofValue? v = (cameraOfValue? fields).map .camera := by
  rw [ofValue?, h]
  simp only [bind, Option.bind]
  cases cameraOfValue? fields <;> rfl

theorem ofValue?_gyro {v fields : Value α} (h : v.tagged? "kind" = some ("Gyro", fields)) :
    ofValue? v = (gyroOfValue? fields).map .gyro := by
  rw [ofValue?, h]
  simp only [bind, Option.bind]
  cases gyroOfValue? fields <;> rfl

theorem ofValue?_toValue (s : SensorConfig α) : ofValue? s.toValue = some s := by
  cases s with
  | camera c =>
    have hfields : cameraOfValue? (toValue (.camera c)) = some c := by
      rw [toValue, cameraOfValue?]
      simp [Entries.required, Entries.optional_eq, CameraOutput.ofValue?_word]
    have htagged : (toValue (.camera c)).tagged? "kind" = some ("Camera", toValue (.camera c)) := by
      simp [toValue, tagged?, Entries.required]
    rw [ofValue?_camera htagged, hfields]
    rfl
  | gyro g =>
    have hfields : gyroOfValue? (toValue (.gyro g)) = some g := by
      rw [toValue, gyroOfValue?]
      simp [Entries.required, Entries.optional_eq]
    have htagged : (toValue (.gyro g)).tagged? "kind" = some ("Gyro", toValue (.gyro g)) := by
      simp [toValue, tagged?, Entries.required]
    rw [ofValue?_gyro htagged, hfields]
    rfl

end SensorConfig

theorem SensorConfig.listOfValue?_toValue (sensors : List (SensorConfig α)) :
    listOfValue? (.list (sensors.map toValue)) = some sensors := by
  have hmap : (sensors.map toValue).mapM ofValue? = some sensors := by
    induction sensors with
    | nil => rfl
    | cons s rest ih =>
      rw [List.map_cons, List.mapM_cons, ofValue?_toValue, ih]
      rfl
  simpa [listOfValue?, list?] using hmap

end Sensors

/-! ### The body -/

theorem Vec3.ofValue?_toValue {α : Type} [Scalar α] (v : Vec3 α) : ofValue? v.toValue = some v := rfl

theorem Vec3.layer_toValue {α : Type} (base v : Vec3 α) : base.toValue.layer v.toValue = v.toValue :=
  layer_list _ _

theorem Vec3.map_toRadians_toDegrees (v : Vec3 ℝ) :
    (v.map Scalar.toDegrees).map Scalar.toRadians = v := by
  simp [Vec3.map, Rotation.toRadians_toDegrees]

namespace BodyConfig

/-- The body with another orientation at the start. -/
def startingAt {α : Type} (b : BodyConfig α) (q : Quaternion α) : BodyConfig α :=
  { b with start := { b.start with orientation := q } }

theorem startOfValue?_layer {α : Type} [Scalar α] (base p : Pose α) :
    startOfValue? ((startToValue base).layer (startToValue p)) =
      some ⟨p.position, Rotation.ofDegrees (Rotation.toDegrees p.orientation)⟩ := by
  simp [startOfValue?, startToValue, Entries.optional_eq, find?_layerEntries,
    Vec3.layer_toValue, Vec3.ofValue?_toValue]

/-- **The body** comes back, its start orientation by way of degrees. -/
theorem ofValue?_layer (base b : BodyConfig ℝ) :
    ofValue? (base.toValue.layer b.toValue) =
      some (b.startingAt (Rotation.ofDegrees (Rotation.toDegrees b.start.orientation))) := by
  rw [ofValue?, toValue, toValue,
    closedRecord?_layer (by simp [Entries.Within]) (by simp [Entries.Within])]
  simp [Entries.optional_eq, Entries.required, find?_layerEntries, startOfValue?_layer,
    Vec3.layer_toValue, Vec3.ofValue?_toValue, Vec3.map_toRadians_toDegrees, startingAt]

end BodyConfig

/-! ### The whole scenario -/

namespace Scenario

/-- The scenario with another orientation at the start. -/
def startingAt {α : Type} (c : Scenario α) (q : Quaternion α) : Scenario α :=
  { c with body := c.body.startingAt q }

/-- **A scenario laid over another** and read: of the other one, only a gate can show. -/
theorem ofValue?_layer (base c : Scenario ℝ)
    (h : c.tracker.maxConsecutiveFailures < UInt32.size) :
    ofValue? (base.toValue.layer c.toValue) =
      some { c.startingAt (Rotation.ofDegrees (Rotation.toDegrees c.body.start.orientation)) with
        tracker := { c.tracker with gate := c.tracker.gate <|> base.tracker.gate } } := by
  rw [ofValue?, toValue, toValue,
    closedRecord?_layer (by simp [Entries.Within]) (by simp [Entries.Within])]
  simp [Entries.optional_eq, find?_layerEntries, RunConfig.ofValue?_layer, BodyConfig.ofValue?_layer,
    SensorConfig.listOfValue?_toValue, TrackerConfig.ofValue?_layer, h, startingAt]

/-- **A written scenario can be read again, and nothing is lost.**  Its tree is laid over the standard
one, read and checked.  What comes back is the scenario, the start orientation up to its sign: the same
rotation, also where the pitch is a right angle.  The number of failures is one of 32 bits. -/
theorem reloads {c : Scenario ℝ} (hvalid : c.validate = .ok ())
    (hunit : c.body.start.orientation.IsUnit)
    (hfailures : c.tracker.maxConsecutiveFailures < UInt32.size) :
    ∃ q, c.body.start.orientation.SameTurn q ∧ extract c.toValue = .ok (c.startingAt q) := by
  refine ⟨_, Rotation.sameTurn_ofDegrees_toDegrees hunit, ?_⟩
  have hgate : (c.tracker.gate <|> (standard : Scenario ℝ).tracker.gate) = c.tracker.gate := by
    cases c.tracker.gate <;> rfl
  rw [extract, ofLayered?, ofValue?_layer standard c hfailures, hgate]
  exact bind_unit_eq_ok_iff.2 ⟨hvalid, rfl⟩

/-- A damped tracker with a gate, and a start with the pitch at a right angle. -/
theorem reloads_thrown :
    thrown.validate = .ok () ∧ thrown.body.start.orientation.matrix 2 0 = -1 ∧
      ∃ q, thrown.body.start.orientation.SameTurn q ∧
        extract thrown.toValue = .ok (thrown.startingAt q) := by
  have hvalid := validate_eq_ok_iff.2 valid_thrown
  have hunit : thrown.body.start.orientation.IsUnit := by
    norm_num [thrown, Quaternion.IsUnit, Quaternion.normSq]
  have hfailures : thrown.tracker.maxConsecutiveFailures < UInt32.size := by
    decide
  refine ⟨hvalid, ?_, reloads hvalid hunit hfailures⟩
  simp only [thrown, Quaternion.matrix, Matrix.of_apply, Matrix.cons_val]
  norm_num

end Scenario

end PoseFilter
