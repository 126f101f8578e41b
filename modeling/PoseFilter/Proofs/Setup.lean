import PoseFilter.Proofs.Results
import PoseFilter.Proofs.Soundness
import PoseFilter.Simulation.Run

/-!
# From a scenario to a run

What the check of a scenario promises to everything that is built from it, over the real numbers.

* `Scenario.validate_eq_ok_iff` : a scenario passes its check exactly if it is in range.
* `Run.create_of_valid` : a checked scenario can be set up, and how (`Run.initial`).
* `Sensor.observe_of_valid` : the sensors never fail, whatever the random source yields, and what they
  send has positive definite noise.
-/

open Matrix

namespace PoseFilter

theorem Exact.toRadians_pos {x : ℝ} (hx : 0 < x) : 0 < Scalar.toRadians x := by
  have hpi : (0 : ℝ) < Scalar.pi := Real.pi_pos
  have hturn : (0 : ℝ) < 180.0 := by norm_num
  exact mul_pos hx (div_pos hpi hturn)

/-! ### Scenarios -/

/-- The ranges that a checked sensor is in. -/
def SensorConfig.Valid : SensorConfig ℝ → Prop
  | camera c =>
    0 < c.rate ∧ 0 < c.positionNoise ∧ 0 < c.orientationNoiseDeg ∧ 0 ≤ c.dropout ∧ c.dropout ≤ 1
  | gyro g => 0 < g.rate ∧ 0 < g.noiseDeg

theorem SensorConfig.Valid.rate_pos {s : SensorConfig ℝ} (h : s.Valid) : 0 < s.rate := by
  cases s with
  | camera c => exact h.1
  | gyro g => exact h.1

/-- The ranges that a checked scenario is in. -/
structure Scenario.Valid (c : Scenario ℝ) : Prop where
  duration_pos : 0 < c.run.duration
  stepRate_pos : 0 < c.run.stepRate
  reportInterval_pos : 0 < c.run.reportInterval
  sensors_ne_nil : c.sensors ≠ []
  sensors : ∀ s ∈ c.sensors, s.Valid
  tracker : c.tracker.validate = .ok ()

namespace Scenario

theorem checkPositive_eq_ok_iff {quantity : String} {x : ℝ} :
    checkPositive quantity x = .ok () ↔ 0 < x := by
  unfold checkPositive
  by_cases hx : 0 < x
  · rw [if_pos ⟨Exact.isFinite_eq x, hx⟩]
    exact ⟨fun _ => hx, fun _ => rfl⟩
  · rw [if_neg fun hc => hx hc.2]
    exact ⟨fun h => (nomatch h), fun h => absurd h hx⟩

theorem checkSensor_eq_ok_iff {s : SensorConfig ℝ} : checkSensor s = .ok () ↔ s.Valid := by
  unfold checkSensor
  rw [bind_unit_eq_ok_iff, checkPositive_eq_ok_iff]
  cases s with
  | camera c =>
    have hdropout : (if ¬(0 ≤ c.dropout ∧ c.dropout ≤ 1) then
        throw (.invalidScenario (.dropoutNotProbability c.name c.dropout)) else pure ()) =
          (.ok () : Except (SimulationError ℝ) Unit) ↔ 0 ≤ c.dropout ∧ c.dropout ≤ 1 := by
      by_cases h : 0 ≤ c.dropout ∧ c.dropout ≤ 1
      · rw [if_neg (not_not.2 h)]
        exact ⟨fun _ => h, fun _ => rfl⟩
      · rw [if_pos h]
        exact ⟨fun h' => (nomatch h'), fun h' => absurd h' h⟩
    simp only [bind_unit_eq_ok_iff, checkPositive_eq_ok_iff, hdropout]
    rfl
  | gyro g =>
    simp only [checkPositive_eq_ok_iff]
    rfl

theorem checkSensors_eq_ok_iff {sensors : List (SensorConfig ℝ)} :
    checkSensors sensors = .ok () ↔ ∀ s ∈ sensors, s.Valid := by
  induction sensors with
  | nil => exact ⟨fun _ => List.forall_mem_nil _, fun _ => rfl⟩
  | cons s rest ih =>
    rw [checkSensors, bind_unit_eq_ok_iff, checkSensor_eq_ok_iff, ih, List.forall_mem_cons]

/-- **A scenario passes its check exactly if it is in range.** -/
theorem validate_eq_ok_iff {c : Scenario ℝ} : c.validate = .ok () ↔ c.Valid := by
  unfold validate
  simp only [bind_unit_eq_ok_iff, checkPositive_eq_ok_iff]
  constructor
  · rintro ⟨hduration, hstepRate, hreport, h⟩
    split at h
    · cases h
    · rename_i hempty
      rw [bind_unit_eq_ok_iff, checkSensors_eq_ok_iff, mapError_eq_ok_iff] at h
      exact ⟨hduration, hstepRate, hreport, fun hnil => hempty (List.isEmpty_iff.2 hnil), h.1, h.2⟩
  · intro h
    refine ⟨h.duration_pos, h.stepRate_pos, h.reportInterval_pos, ?_⟩
    rw [if_neg fun hempty => h.sensors_ne_nil (List.isEmpty_iff.1 hempty), bind_unit_eq_ok_iff,
      checkSensors_eq_ok_iff, mapError_eq_ok_iff]
    exact ⟨h.sensors, h.tracker⟩

end Scenario

/-! ### Sensors -/

/-- The ranges that a sensor needs to observe with. -/
def SensorModel.Valid : SensorModel ℝ → Prop
  | camera _ positionNoise orientationNoise dropout =>
    0 < positionNoise ∧ 0 < orientationNoise ∧ 0 ≤ dropout ∧ dropout ≤ 1
  | gyro noise => 0 < noise

namespace SensorConfig

section Model

variable {α : Type} [Scalar α]

/-- How a sensor of a scenario observes. -/
def model : SensorConfig α → SensorModel α
  | camera c =>
    .camera c.output c.positionNoise (Scalar.toRadians c.orientationNoiseDeg) c.dropout
  | gyro g => .gyro (Scalar.toRadians g.noiseDeg)

/-- The sensor of a scenario at a place. -/
def sensor (s : SensorConfig α) (index : Nat) : Sensor α :=
  ⟨s.name, ⟨index⟩, Schedule.ofRate s.rate, s.model⟩

end Model

theorem Valid.model {s : SensorConfig ℝ} (h : s.Valid) : s.model.Valid := by
  cases s with
  | camera c =>
    obtain ⟨-, hposition, horientation, hdropout⟩ := h
    exact ⟨hposition, Exact.toRadians_pos horientation, hdropout⟩
  | gyro g => exact Exact.toRadians_pos h.2

end SensorConfig

namespace Sensor

theorem ofConfig_eq (s : SensorConfig ℝ) (index : Nat) : ofConfig s ⟨index⟩ = .ok (s.sensor index) := by
  cases s with
  | camera c => rfl
  | gyro g => rfl

/-- A random source can decide every event that has a probability. -/
def Decides (γ : Type) [NoiseSource γ ℝ] : Prop :=
  ∀ (p : ℝ) (source : γ), 0 ≤ p → p ≤ 1 → ∃ answer, NoiseSource.chance p source = some answer

theorem poseNoise_posDef {u v : ℝ} (hu : 0 < u) (hv : 0 < v) : (poseNoise u v).toMatrix.PosDef := by
  have hdiagonal : (poseNoise u v).toMatrix = diagonal fun i : Fin 6 => if 3 ≤ i.val then v else u := by
    ext i j
    rw [Mat.toMatrix_apply, poseNoise, Mat.get_ofFn, Matrix.diagonal_apply]
    by_cases hij : i = j
    · subst hij
      simp only [if_true, and_self, one_mul]
    · rw [if_neg hij, if_neg hij, zero_mul]
  rw [hdiagonal, Matrix.posDef_diagonal_iff]
  intro i
  split
  · exact hv
  · exact hu

variable {γ : Type} [NoiseSource γ ℝ]

theorem loses_of_valid (hsource : Decides γ) {dropout : ℝ} (h : 0 ≤ dropout ∧ dropout ≤ 1)
    (source : γ) : ∃ answer, loses dropout source = .ok answer := by
  unfold loses
  split
  · obtain ⟨answer, hanswer⟩ := hsource dropout source h.1 h.2
    rw [hanswer]
    exact ⟨answer, rfl⟩
  · exact ⟨_, rfl⟩

theorem look_of_valid (hsource : Decides γ) {model : SensorModel ℝ} (h : model.Valid)
    (truth : TrueState ℝ) (source : γ) :
    ∃ reading after, look model truth source = .ok (reading, after) ∧
      ∀ r ∈ reading, r.noise.toMatrix.PosDef := by
  cases model with
  | gyro noise => exact ⟨_, _, rfl, fun r hr => by cases hr; exact Mat.posDef_scalar (mul_pos h h)⟩
  | camera output positionNoise orientationNoise dropout =>
    obtain ⟨hposition, horientation, hdropout⟩ := h
    obtain ⟨⟨lost, after⟩, hloses⟩ := loses_of_valid hsource hdropout source
    have hu := mul_pos hposition hposition
    have hv := mul_pos horientation horientation
    simp only [look, hloses, bind, Except.bind]
    cases lost with
    | true => exact ⟨none, after, rfl, fun r hr => nomatch hr⟩
    | false =>
      cases output with
      | orientation => exact ⟨_, _, rfl, fun r hr => by cases hr; exact Mat.posDef_scalar hv⟩
      | position => exact ⟨_, _, rfl, fun r hr => by cases hr; exact Mat.posDef_scalar hu⟩
      | pose => exact ⟨_, _, rfl, fun r hr => by cases hr; exact poseNoise_posDef hu hv⟩

/-- **A sensor in its ranges never fails**, and what it sends is for the body it was asked about, of
that time and with positive definite noise. -/
theorem observe_of_valid (hsource : Decides γ) {s : Sensor ℝ} (h : s.model.Valid) (body : BodyHandle)
    (time : ℝ) (truth : TrueState ℝ) (source : γ) :
    ∃ message after, s.observe body time truth source = .ok (message, after) ∧
      ∀ m ∈ message, m.body = body ∧ m.timestamp = time ∧ m.reading.noise.toMatrix.PosDef := by
  obtain ⟨reading, after, hlook, hnoise⟩ := look_of_valid hsource h truth source
  refine ⟨reading.map fun r => ⟨body, s.handle, time, r⟩, after, ?_, fun m hm => ?_⟩
  · simp only [observe, hlook, bind, Except.bind]
    rfl
  · obtain ⟨r, hr, rfl⟩ := Option.mem_map.1 hm
    exact ⟨rfl, rfl, hnoise r hr⟩

end Sensor

/-! ### Runs -/

namespace Run

theorem makeSensors_eq (index : Nat) (sensors : List (SensorConfig ℝ)) :
    makeSensors index sensors = .ok ((sensors.zipIdx index).map fun p => p.1.sensor p.2) := by
  induction sensors generalizing index with
  | nil => rfl
  | cons s rest ih =>
    simp only [makeSensors, Sensor.ofConfig_eq, ih, bind, Except.bind]
    rfl

variable {γ : Type}

/-- A run of a scenario before its first step. -/
noncomputable def initial (c : Scenario ℝ) (source : γ) : Run γ ℝ where
  scenario := c
  sensors := c.sensors.zipIdx.map fun p => p.1.sensor p.2
  tracker := ⟨body, c.tracker, startState c, 0, 0, 0, 0, 0⟩
  source := source
  stats := ErrorStats.empty
  measurements := 0
  dropped := 0
  nextReport := c.run.reportInterval
  journal :=
    #[.setUp c.body.name c.sensors.length c.run.seed] ++ (sensorEvents 0 c.sensors).toArray ++
      #[.tracker (.created body c.tracker.motion)]

/-- **A checked scenario can be set up.** -/
theorem create_of_valid {c : Scenario ℝ} (h : c.validate = .ok ()) (source : γ) :
    create c source = .ok (initial c source) := by
  have htracker := Tracker.create_eq (Scenario.validate_eq_ok_iff.1 h).tracker body (startState c) 0
  simp only [create, h, makeSensors_eq, htracker, bind, Except.bind]
  rfl

theorem create_of_invalid {c : Scenario ℝ} {e : SimulationError ℝ} (h : c.validate = .error e)
    (source : γ) : create c source = .error e := by
  simp only [create, h, bind, Except.bind]

theorem mem_sensors_initial {c : Scenario ℝ} {source : γ} {s : Sensor ℝ} :
    s ∈ (initial c source).sensors ↔
      ∃ (config : SensorConfig ℝ) (index : Nat), c.sensors[index]? = some config ∧
        s = config.sensor index := by
  rw [initial, List.mem_map]
  constructor
  · rintro ⟨⟨config, index⟩, hmem, rfl⟩
    exact ⟨config, index, List.mem_zipIdx_iff_getElem?.1 hmem, rfl⟩
  · rintro ⟨config, index, hmem, rfl⟩
    exact ⟨(config, index), List.mem_zipIdx_iff_getElem?.2 hmem, rfl⟩

end Run

/-! ### A scenario to run -/

/-- A random stream read over the real numbers.  It decides events as the stream does; the other
numbers are even on the unit interval about zero. -/
structure ExactStream where
  stream : RandomStream

noncomputable instance : NoiseSource ExactStream ℝ where
  chance := fun p s =>
    if p = 1 then some (true, s)
    else if 0 ≤ p ∧ p < 1 then
      some (decide (s.stream.next.1.toNat < ⌊p * UInt64.size⌋₊), ⟨s.stream.next.2⟩)
    else none
  gaussian := fun s => (s.stream.next.1.toNat / UInt64.size - 0.5, ⟨s.stream.next.2⟩)

theorem ExactStream.decides : Sensor.Decides ExactStream := by
  intro p source hp hle
  by_cases hone : p = 1
  · exact ⟨_, if_pos hone⟩
  · exact ⟨_, (if_neg hone).trans (if_pos ⟨hp, lt_of_le_of_ne hle hone⟩)⟩

/-- The standard scenario with a camera that loses every other frame. -/
noncomputable def Scenario.patchy : Scenario ℝ :=
  { Scenario.standard with sensors := [
    .camera ⟨"camera", 30, .pose, Scenario.defaultPositionNoise,
      Scenario.defaultOrientationNoiseDeg, 0.5⟩,
    .gyro ⟨"gyro", 200, Scenario.defaultGyroNoiseDeg⟩] }

theorem Scenario.valid_patchy : patchy.Valid := by
  refine ⟨?_, ?_, ?_, List.cons_ne_nil _ _, ?_, TrackerConfig.validate_standard⟩
  · norm_num [patchy, standard, standardRun]
  · norm_num [patchy, standard, standardRun]
  · norm_num [patchy, standard, standardRun]
  · refine List.forall_mem_cons.2 ⟨?_, List.forall_mem_singleton.2 ?_⟩
    · norm_num [SensorConfig.Valid, defaultPositionNoise, defaultOrientationNoiseDeg]
    · norm_num [SensorConfig.Valid, defaultGyroNoiseDeg]

/-- A thrown body that starts with its nose straight down, seen by sensors that fire and lose frames as
the ones before, but the camera tells positions only; the tracker damps and has a gate. -/
noncomputable def Scenario.thrown : Scenario ℝ where
  run := ⟨0, 5.0, 50.0, 0.5⟩
  body := ⟨"thrown", ⟨⟨1, 2.0, 3.0⟩, ⟨0.5, 0.5, 0.5, -0.5⟩⟩, ⟨0, 5.0, -1⟩, ⟨0, 3.0, 0⟩⟩
  sensors := [.camera ⟨"lens", 30, .position, 0.1, 2.0, 0.5⟩, .gyro ⟨"spin", 200, 3.0⟩]
  tracker := { TrackerConfig.standard with motion := Motion.damped, gate := some 9 }

theorem Scenario.valid_thrown : thrown.Valid := by
  refine ⟨?_, ?_, ?_, List.cons_ne_nil _ _, ?_, TrackerConfig.validate_damped⟩
  · norm_num [thrown]
  · norm_num [thrown]
  · norm_num [thrown]
  · refine List.forall_mem_cons.2 ⟨?_, List.forall_mem_singleton.2 ?_⟩
    · norm_num [SensorConfig.Valid]
    · norm_num [SensorConfig.Valid]

end PoseFilter
