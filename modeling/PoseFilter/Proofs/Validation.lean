import PoseFilter.Proofs.Progress

/-!
# The check of a scenario is enough

A scenario is checked once, field by field, before anything is built from it.  Over the real numbers
nothing goes wrong after that.

* The set-up fails exactly when the check does, and for the same reason.
* Whatever the steps, the sensors stay in their ranges, and none of them fails: a camera never asks the
  random source for an event whose probability is not one (`Run.log_ok`).
* A tracker without a gate that starts from a unit rotation applies every reading it is given
  (`Tracker.upheld_flawless`), so in the end all readings are applied and the estimate can be trusted.
-/

namespace PoseFilter

/-! ### Sensors along a run -/

namespace Run

section Sensors

variable {γ : Type} [NoiseSource γ ℝ] [Diagonalization] {r : Run γ ℝ}

theorem valid_step (h : ∀ s ∈ r.sensors, s.model.Valid) (now : ℝ) :
    ∀ s ∈ (r.step now).2.sensors, s.model.Valid := by
  rw [sensors_step]
  intro s' hs'
  obtain ⟨s, hs, rfl⟩ := mem_drained.1 hs'
  exact h s hs

/-- **The sensors stay in their ranges**, with or without an error. -/
theorem valid_stepAll (h : ∀ s ∈ r.sensors, s.model.Valid) (times : List ℝ) :
    ∀ s ∈ (r.stepAll times).2.sensors, s.model.Valid := by
  induction times generalizing r with
  | nil => exact h
  | cons now rest ih =>
    have hfirst := valid_step h now
    rw [stepAll]
    rcases hstep : r.step now with ⟨result, r₁⟩
    rw [hstep] at hfirst
    cases result with
    | error e => exact hfirst
    | ok u => exact ih hfirst

theorem sightings_ok (hsource : Sensor.Decides γ) {firings : List (Firing ℝ)}
    (h : ∀ f ∈ firings, f.sensor.model.Valid) :
    ∀ sighting ∈ r.sightings firings, ∃ answer, sighting.seen = .ok answer := by
  induction firings generalizing r with
  | nil => exact List.forall_mem_nil _
  | cons f rest ih =>
    obtain ⟨hf, hrest⟩ := List.forall_mem_cons.1 h
    refine List.forall_mem_cons.2 ⟨?_, ?_⟩
    · obtain ⟨message, after, hseen, -⟩ := Sensor.observe_of_valid hsource hf r.tracker.handle f.time
        ((Truth.ofBody r.scenario.body).atTime f.time) r.source
      exact ⟨_, hseen⟩
    · split
      · exact ih hrest
      · exact List.forall_mem_nil _

/-- **No sensor fails**, at whatever times the steps are. -/
theorem log_ok (hsource : Sensor.Decides γ) (h : ∀ s ∈ r.sensors, s.model.Valid) (times : List ℝ) :
    ∀ sighting ∈ r.log times, ∃ answer, sighting.seen = .ok answer := by
  induction times generalizing r with
  | nil => exact List.forall_mem_nil _
  | cons now rest ih =>
    have hfirst := valid_step h now
    rw [Run.log, List.forall_mem_append]
    constructor
    · exact sightings_ok hsource fun f hf => h f.sensor (Firing.sensor_mem hf)
    · rcases hstep : r.step now with ⟨result, r₁⟩
      rw [hstep] at hfirst
      cases result with
      | error e => exact List.forall_mem_nil _
      | ok u => exact ih hfirst

end Sensors

end Run

/-! ### Trackers without a gate -/

namespace Tracker

/-- A sound tracker without a gate that has applied all its readings. -/
structure Flawless (n : Nat) (t : Tracker ℝ) : Prop where
  sound : t.Sound
  ungated : t.config.gate = none
  applied : t.applied = n
  rejectedOutliers : t.rejectedOutliers = 0
  rejectedInvalid : t.rejectedInvalid = 0

theorem isTrustworthy_estimate (t : Tracker ℝ) : t.estimate.isTrustworthy = true := by
  simp only [Estimate.isTrustworthy, estimate, PoseState.meanIsFinite_eq,
    FilterState.covarianceIsFinite_eq, Bool.not_true, Bool.not_false, Bool.and_self]

variable [Diagonalization]

theorem Flawless.advancedTo {n : Nat} {t : Tracker ℝ} (h : t.Flawless n) {time : ℝ}
    (htime : t.timestamp ≤ time) :
    ∃ s, t.foreseen time = .ok s ∧ (t.advancedTo time s).Flawless n := by
  obtain ⟨s, hs, -⟩ := predicted_sound h.sound.state h.sound.config.motion (sub_nonneg.2 htime)
  exact ⟨s, hs, foreseen_sound h.sound htime.not_gt hs, h.ungated, h.applied, h.rejectedOutliers,
    h.rejectedInvalid⟩

/-- **A reading with positive definite noise is applied.** -/
theorem Flawless.correctBy {n : Nat} {t : Tracker ℝ} (h : t.Flawless n) {r : Reading ℝ}
    (hr : r.noise.toMatrix.PosDef) : (t.correctBy r).tracker.Flawless (n + 1) := by
  obtain ⟨w, hw⟩ := h.sound.config.weights
  obtain ⟨hrejection, s, hcorrected, hs⟩ := Reading.corrected_sound h.sound.state hr hw
  rw [correctBy_of_ungated h.ungated rfl hrejection hcorrected]
  exact ⟨⟨h.sound.config, hs, rfl⟩, h.ungated, congrArg (· + 1) h.applied, h.rejectedOutliers,
    h.rejectedInvalid⟩

/-- **A tracker without a gate applies all it is given.** -/
theorem upheld_flawless : Upheld Flawless := by
  refine ⟨fun h => h.sound.orderly, ?_, ?_⟩
  · intro n t message h hbody htime hnoise
    obtain ⟨s, hs, hahead⟩ := h.advancedTo htime
    rw [process_measurement_of_foreseen hbody htime.not_gt hs]
    exact hahead.correctBy hnoise
  · intro n t time h htime
    rcases htime.lt_or_eq with hlt | heq
    · obtain ⟨s, hs, hahead⟩ := h.advancedTo htime
      rw [process_timeStep_of_foreseen hlt htime.not_gt hs]
      exact hahead
    · rw [process, if_neg heq.not_lt]
      exact h

end Tracker

/-! ### Checked scenarios -/

namespace Run

section Checked

variable {γ : Type}

/-- **The set-up fails exactly when the check does**, and for the same reason. -/
theorem create_eq_error_iff {c : Scenario ℝ} {source : γ} {e : SimulationError ℝ} :
    create c source = .error e ↔ c.validate = .error e := by
  cases h : c.validate with
  | error e' =>
    rw [create_of_invalid h]
    exact ⟨fun h' => by cases h'; rfl, fun h' => by cases h'; rfl⟩
  | ok u =>
    rw [create_of_valid h]
    exact ⟨fun h' => (nomatch h'), fun h' => (nomatch h')⟩

theorem create_isOk_iff {c : Scenario ℝ} {source : γ} :
    (∃ r, create c source = .ok r) ↔ c.validate = .ok () := by
  cases h : c.validate with
  | error e =>
    rw [create_of_invalid h]
    exact ⟨fun ⟨_, h'⟩ => (nomatch h'), fun h' => (nomatch h')⟩
  | ok u => exact ⟨fun _ => rfl, fun _ => ⟨_, create_of_valid h source⟩⟩

theorem valid_of_create {c : Scenario ℝ} {source : γ} {r : Run γ ℝ} (h : create c source = .ok r) :
    ∀ s ∈ r.sensors, s.model.Valid := by
  have hvalid := create_isOk_iff.1 ⟨r, h⟩
  cases Except.ok.inj ((create_of_valid hvalid source).symm.trans h)
  intro s hs
  obtain ⟨config, index, hconfig, rfl⟩ := mem_sensors_initial.1 hs
  exact ((Scenario.validate_eq_ok_iff.1 hvalid).sensors config (List.mem_of_getElem? hconfig)).model

variable [NoiseSource γ ℝ] [Diagonalization]

/-- **The check of a scenario is enough.**  The set-up succeeds exactly if the check does, and fails for
no other reason.  After it, no camera is ever asked with a chance of losing a frame that is not a
probability, and no sensor fails.  If the body starts from a unit rotation and the tracker has no gate,
the scenario runs to its end, every reading is applied, and the estimate in the end can be trusted. -/
theorem validation_suffices (hsource : Sensor.Decides γ) (c : Scenario ℝ) (source : γ) :
    ((∃ r, create c source = .ok r) ↔ c.validate = .ok ()) ∧
    (∀ e, create c source = .error e ↔ c.validate = .error e) ∧
    (∀ r, create c source = .ok r → ∀ times,
      (∀ s ∈ (r.stepAll times).2.sensors, ∀ output positionNoise orientationNoise dropout,
        s.model = .camera output positionNoise orientationNoise dropout → 0 ≤ dropout ∧ dropout ≤ 1) ∧
      ∀ sighting ∈ r.log times, ∃ answer, sighting.seen = .ok answer) ∧
    (c.validate = .ok () → c.body.start.orientation.IsUnit → c.tracker.gate = none →
      ∃ r summary last, create c source = .ok r ∧ r.complete = (.ok summary, last) ∧
        summary.applied = summary.measurements ∧ summary.rejectedOutliers = 0 ∧
        summary.rejectedInvalid = 0 ∧ summary.finalEstimateTrustworthy = true) := by
  refine ⟨create_isOk_iff, fun e => create_eq_error_iff, ?_, ?_⟩
  · intro r hr times
    have hvalid := valid_of_create hr
    refine ⟨?_, log_ok hsource hvalid times⟩
    intro s hs output positionNoise orientationNoise dropout hmodel
    have hcamera := valid_stepAll hvalid times s hs
    rw [hmodel] at hcamera
    exact hcamera.2.2
  · intro hc hunit hgate
    have hvalid := Scenario.validate_eq_ok_iff.1 hc
    have hconfig := TrackerConfig.validate_spec hvalid.tracker
    have hstart : (initial c source).tracker.Flawless 0 :=
      ⟨⟨hconfig, PoseState.sound_resetCovariance hunit hconfig.initialCovariance_pos, rfl⟩, hgate,
        rfl, rfl, rfl⟩
    obtain ⟨r', hall, hsteady⟩ := steps_initial Tracker.upheld_flawless hsource hvalid hstart
      (stepCount c)
    have hend := hsteady.upheld
    exact ⟨_, _, _, create_of_valid hc source, complete_of_steps hall, hend.applied,
      hend.rejectedOutliers, hend.rejectedInvalid, Tracker.isTrustworthy_estimate _⟩

end Checked

/-- Ten seconds of a camera that loses every other frame, and of a gyroscope. -/
theorem validation_suffices_patchy :
    ∃ (r : Run ExactStream ℝ) (summary : RunSummary ℝ) (last : Run ExactStream ℝ),
      create Scenario.patchy ⟨RandomStream.seeded 7⟩ = .ok r ∧ r.complete = (.ok summary, last) ∧
        summary.applied = summary.measurements ∧ summary.rejectedOutliers = 0 ∧
        summary.rejectedInvalid = 0 ∧ summary.finalEstimateTrustworthy = true := by
  obtain ⟨-, -, -, h⟩ := validation_suffices ExactStream.decides Scenario.patchy
    ⟨RandomStream.seeded 7⟩
  exact h (Scenario.validate_eq_ok_iff.2 Scenario.valid_patchy) Quaternion.isUnit_identity rfl

end Run

end PoseFilter
