import PoseFilter.Proofs.Prediction
import PoseFilter.Proofs.Readings
import PoseFilter.Proofs.Results

/-!
# The exact filter never loses its state

Over the real numbers a tracker cannot spoil its own state.  Predictions keep the covariance positive
definite (`predicted_sound`), and a correction by a reading takes `C S⁻¹ Cᵀ` away, which leaves a
positive definite matrix however the sigma points are spread, because opposite points cancel
(`Reading.corrected_sound`).  What can fail is only the noise of a reading that is not positive
definite, and that is a failure of the input.

* `TrackerConfig.validate_spec` : what the check of the settings promises.
* `Tracker.Sound` : valid settings, a sound state and no failures counted.
* `Tracker.correctBy_of_posDef`, `Tracker.correctBy_of_not_posDef` : the two ends of a correction.
* `Tracker.process_sound` : one input keeps a tracker sound; `Tracker.processAll_sound` : so does a
  run.
* `Tracker.stays_sound` : every tracker that can be set up stays sound for good.
-/

open Matrix

namespace PoseFilter

open FilterState

/-! ### Settings -/

/-- Settings that the exact filter can run with. -/
structure TrackerConfig.Valid (c : TrackerConfig ℝ) : Prop where
  initialCovariance_pos : 0 < c.initialCovariance
  weights : ∃ w, c.params.weights PoseState.dim = .ok w
  motion : c.motion.Checked

theorem TrackerConfig.validate_spec {c : TrackerConfig ℝ} (h : c.validate = .ok ()) : c.Valid := by
  unfold validate at h
  by_cases hpos : 0 < c.initialCovariance
  · simp only [Exact.isFinite_eq, hpos, and_self, not_true, if_false, bind, Except.bind] at h
    -- the gate is checked before the parameters, and either is reported
    have hrest : (c.params.weights PoseState.dim >>= fun _ => c.motion.check) = Except.ok () := by
      cases hgate : c.gate with
      | none =>
        simp only [hgate] at h
        exact h
      | some g =>
        by_cases hg : 0 < g
        · simp only [hgate, hg, not_true, if_false] at h
          exact h
        · simp only [hgate, hg, not_false_eq_true, if_true] at h
          cases h
    obtain ⟨w, hw, hmotion⟩ := bind_eq_ok_iff.1 hrest
    exact ⟨hpos, ⟨w, hw⟩, Motion.check_spec hmotion⟩
  · simp only [hpos, and_false, not_false_eq_true, if_true] at h
    cases h

theorem TrackerConfig.not_beyondGate_zero {c : TrackerConfig ℝ} (h : c.validate = .ok ()) :
    Tracker.beyondGate c.gate 0 = false := by
  unfold validate at h
  cases hgate : c.gate with
  | none => rfl
  | some g =>
    have hg : 0 < g := by
      by_contra hg
      by_cases hpos : 0 < c.initialCovariance
      · simp only [Exact.isFinite_eq, hpos, and_self, not_true, if_false, hgate, hg,
          not_false_eq_true, if_true, bind, Except.bind] at h
        cases h
      · simp only [hpos, and_false, not_false_eq_true, if_true] at h
        cases h
    exact decide_eq_false (not_lt.2 hg.le)

theorem TrackerConfig.validate_standard : (standard : TrackerConfig ℝ).validate = .ok () := by
  obtain ⟨w, hw⟩ := UnscentedParams.exists_weights_standard (n := PoseState.dim) (by decide)
  have hvariance : (0 : ℝ) < PoseState.initialVariance := by norm_num [PoseState.initialVariance]
  simp only [validate, standard, Exact.isFinite_eq, hvariance, and_self, not_true, if_false, bind,
    Except.bind, hw, Motion.check_constantVelocity]

theorem TrackerConfig.validate_damped : validate { (standard : TrackerConfig ℝ) with
    motion := Motion.damped, gate := some 9 } = .ok () := by
  obtain ⟨w, hw⟩ := UnscentedParams.exists_weights_standard (n := PoseState.dim) (by decide)
  have hvariance : (0 : ℝ) < PoseState.initialVariance := by norm_num [PoseState.initialVariance]
  have hgate : (0 : ℝ) < 9 := by norm_num
  simp only [validate, standard, Exact.isFinite_eq, hvariance, hgate, and_self, not_true, if_false,
    bind, Except.bind, hw, Motion.check_damped]

/-! ### Corrections by readings -/

theorem PoseState.sound_resetCovariance {s : PoseState ℝ} (hs : s.orientation.IsUnit) {v : ℝ}
    (hv : 0 < v) : (s.resetCovariance v).Sound :=
  ⟨hs, Mat.scalar PoseState.dim v, rfl, Mat.posDef_scalar hv⟩

/-- The noise of a reading is exactly symmetric. -/
def Reading.Symmetric (r : Reading ℝ) : Prop := r.noise.toMatrix.IsSymm

section Correct

variable [Diagonalization]

/-- **A reading with positive definite noise is never refused**, and what is committed is sound. -/
theorem Reading.corrected_sound {s : PoseState ℝ} (hs : s.Sound) {r : Reading ℝ}
    (hr : r.noise.toMatrix.PosDef) {params : UnscentedParams ℝ} {w : SigmaWeights ℝ PoseState.dim}
    (hw : params.weights PoseState.dim = .ok w) :
    (Correction.begin s r.model params).rejection = none ∧
      ∃ s', (Correction.begin s r.model params).corrected = .ok s' ∧ s'.Sound := by
  obtain ⟨p, hp, hpd⟩ := hs.posDef
  obtain ⟨root, share, -, hmoments, hprop⟩ := propose_eq hs.unit hp hpd.posSemidef r hr hw
  have hpost := hmoments.posterior_posDef hpd
  have hcommit := Correction.commit_ofMoments (c := Correction.begin s r.model params) hprop hp
    hmoments.posDef_innovation hpost.posSemidef
  constructor
  · exact Correction.rejection_of_ok hprop
  · have hwritten := hcommit.trans (if_pos (PoseState.meanIsFinite_eq _))
    refine ⟨_, Update.eq_ok_of_ofExcept hwritten, ?_, _, rfl, ?_⟩
    · exact Rotation.isUnit_turned hs.unit _
    · rwa [Mat.toMatrix_ofMatrix]

theorem Reading.rejection_of_not_posDef (s : PoseState ℝ) {r : Reading ℝ} (hsymm : r.Symmetric)
    (hr : ¬r.noise.toMatrix.PosDef) (params : UnscentedParams ℝ) :
    (Correction.begin s r.model params).rejection =
      some .measurementCovarianceNotPositiveDefinite := by
  have hcheck : Proposal.checkNoise r.model.dim (r.model.covariance s) =
      .error .measurementCovarianceNotPositiveDefinite := by
    rw [covariance_model]
    exact Proposal.checkNoise_of_not_posDef hsymm hr
  simp only [Correction.rejection, Correction.begin, propose, hcheck, bind, Except.bind]

end Correct

/-! ### Sound trackers -/

namespace Tracker

/-- A tracker with settings that can be used, a sound state and no failure counted against it. -/
structure Sound (t : Tracker ℝ) : Prop where
  config : t.config.Valid
  state : t.state.Sound
  failures : t.consecutiveFailures = 0

/-- No covariance was reset. -/
def Unreset (events : List (TrackerEvent ℝ)) : Prop :=
  ∀ body failures variance, TrackerEvent.covarianceReset body failures variance ∉ events

theorem predictionEvents_eq (dt : ℝ) (s : PoseState ℝ) : predictionEvents dt s = [] := by
  simp only [predictionEvents, PoseState.meanIsFinite_eq, FilterState.covarianceIsFinite_eq,
    Bool.and_self, if_true]

section Run

variable [Diagonalization]

theorem correctBy_of_posDef {t : Tracker ℝ} (ht : t.Sound) {r : Reading ℝ}
    (hr : r.noise.toMatrix.PosDef) :
    (∃ d, (t.correctBy r).result = .applied d ∨ (t.correctBy r).result = .rejectedOutlier d) ∧
      (t.correctBy r).tracker.Sound ∧ (t.correctBy r).events = [] := by
  obtain ⟨w, hw⟩ := ht.config.weights
  obtain ⟨hrej, s, hcorr, hs⟩ := Reading.corrected_sound ht.state hr hw
  rw [correctBy_eq, correct]
  set c := Correction.begin t.state r.model t.config.params with hc
  cases hg : beyondGate t.config.gate c.numbers.mahalanobisSquared with
  | true =>
    rw [attempt_of_beyondGate hc.symm hrej hg]
    exact ⟨⟨_, .inr rfl⟩, ⟨ht.config, ht.state, ht.failures⟩, rfl⟩
  | false =>
    rw [attempt_of_corrected hc.symm hrej hg hcorr]
    exact ⟨⟨_, .inl rfl⟩, ⟨ht.config, hs, rfl⟩, rfl⟩

theorem correctBy_of_not_posDef {t : Tracker ℝ} (ht : t.Sound) {r : Reading ℝ}
    (hsymm : r.Symmetric) (hr : ¬r.noise.toMatrix.PosDef) :
    (t.correctBy r).result = .rejectedInvalid .measurementCovarianceNotPositiveDefinite ∧
      (t.correctBy r).tracker.Sound ∧
      (t.correctBy r).events =
        [.correctionRejected t.handle .measurementCovarianceNotPositiveDefinite] := by
  rw [correctBy_eq, correct,
    attempt_of_rejection rfl (Reading.rejection_of_not_posDef _ hsymm hr _)]
  exact ⟨rfl, ⟨ht.config, ht.state, ht.failures⟩, rfl⟩

theorem foreseen_sound {t : Tracker ℝ} (ht : t.Sound) {time : ℝ} (h : ¬time < t.timestamp)
    {s : PoseState ℝ} (hs : t.foreseen time = .ok s) : (t.advancedTo time s).Sound := by
  obtain ⟨s', hs', hsound⟩ := predicted_sound ht.state ht.config.motion
    (sub_nonneg.2 (not_lt.1 h))
  cases Except.ok.inj (hs.symm.trans hs')
  exact ⟨ht.config, hsound, ht.failures⟩

/-- What a measurement comes to: it is refused exactly for its noise, and applied or gated
otherwise. -/
def Verdict (r : Reading ℝ) (outcome : Outcome ℝ) : Prop :=
  (outcome = .rejectedInvalid .measurementCovarianceNotPositiveDefinite ↔
      ¬r.noise.toMatrix.PosDef) ∧
    (r.noise.toMatrix.PosDef → ∃ d, outcome = .applied d ∨ outcome = .rejectedOutlier d)

theorem correctBy_sound {t : Tracker ℝ} (ht : t.Sound) {r : Reading ℝ} (hsymm : r.Symmetric) :
    Verdict r (t.correctBy r).result ∧ (t.correctBy r).tracker.Sound ∧
      Unreset (t.correctBy r).events := by
  by_cases hr : r.noise.toMatrix.PosDef
  · obtain ⟨⟨d, hd⟩, hs, he⟩ := correctBy_of_posDef ht hr
    refine ⟨⟨⟨fun h => ?_, fun h => absurd hr h⟩, fun _ => ⟨d, hd⟩⟩, hs, ?_⟩
    · rw [h] at hd
      rcases hd with hd | hd <;> cases hd
    · rw [he]
      exact fun _ _ _ => List.not_mem_nil
  · obtain ⟨hres, hs, he⟩ := correctBy_of_not_posDef ht hsymm hr
    refine ⟨⟨⟨fun _ => hr, fun _ => hres⟩, fun h => absurd h hr⟩, hs, ?_⟩
    intro body failures variance hmem
    rw [he, List.mem_singleton] at hmem
    cases hmem

end Run

end Tracker

/-- The noise of a measurement is exactly symmetric. -/
def Input.Symmetric : Input ℝ → Prop
  | timeStep _ => True
  | measurement message => message.reading.Symmetric

namespace Tracker

section Run

variable [Diagonalization]

/-- **One input keeps a tracker sound**, resets nothing, and gives a measurement its verdict. -/
theorem process_sound {t : Tracker ℝ} (ht : t.Sound) {input : Input ℝ} (hi : input.Symmetric) :
    (t.process input).tracker.Sound ∧ Unreset (t.process input).events ∧
      ∀ message, input = .measurement message →
        ∀ outcome, (t.process input).result = .ok outcome → Verdict message.reading outcome := by
  have hnone : Unreset [] := fun _ _ _ => List.not_mem_nil
  have htransition := t.process_transition input
  generalize t.process input = reply at htransition ⊢
  cases htransition with
  | idle h => exact ⟨ht, hnone, fun _ hm => nomatch hm⟩
  | misaddressed h => exact ⟨ht, hnone, fun _ _ _ ho => nomatch ho⟩
  | stale _ hc h => exact ⟨ht, hnone, fun _ _ _ ho => nomatch ho⟩
  | unforeseen _ hc h he => exact ⟨ht, hnone, fun _ _ _ ho => nomatch ho⟩
  | advanced hahead hlt hs =>
    refine ⟨foreseen_sound ht hlt hs, ?_, fun _ hm => nomatch hm⟩
    rw [predictionEvents_eq]
    exact hnone
  | @corrected message s hbody hlt hs =>
    -- the correction starts from a predicted state, which is sound already
    obtain ⟨hverdict, hsound, hevents⟩ := correctBy_sound (foreseen_sound ht hlt hs) hi
    refine ⟨hsound, ?_, fun m hm outcome ho => ?_⟩
    · rw [predictionEvents_eq, List.nil_append]
      exact hevents
    · cases Input.measurement.inj hm
      cases Except.ok.inj ho
      exact hverdict

theorem processAll_sound {t : Tracker ℝ} (ht : t.Sound) {inputs : List (Input ℝ)}
    (hi : ∀ input ∈ inputs, input.Symmetric) : (t.processAll inputs).2.Sound := by
  induction inputs generalizing t with
  | nil => exact ht
  | cons input rest ih =>
    have hstep := (process_sound ht (hi input List.mem_cons_self)).1
    exact ih hstep fun i hmem => hi i (List.mem_cons_of_mem _ hmem)

end Run

/-! ### Trackers that are set up -/

theorem create_eq {α : Type} [Scalar α] {config : TrackerConfig α} (h : config.validate = .ok ())
    (handle : BodyHandle) (s : PoseState α) (timestamp : α) :
    create handle config s timestamp = .ok ⟨handle, config, s, timestamp, 0, 0, 0, 0⟩ := by
  rw [create, h]
  rfl

theorem createAtRest_eq {α : Type} [Scalar α] {config : TrackerConfig α}
    (h : config.validate = .ok ()) (handle : BodyHandle) :
    createAtRest handle config = .ok ⟨handle, config,
      PoseState.initial.resetCovariance config.initialCovariance, 0, 0, 0, 0, 0⟩ :=
  create_eq h handle _ _

/-- **A tracker stays sound for good.**  For all settings that pass their check, a tracker can be set
up at rest or from any sound state at any time.  After every run of time steps and measurements of
the four kinds with symmetric noise, its orientation is a unit quaternion, its covariance is a
positive definite matrix over the tangent space, and no failure is counted.  Whatever comes next
resets nothing, and a measurement that is taken up is refused exactly if its noise is not positive
definite, and applied or gated otherwise. -/
theorem stays_sound [Diagonalization] {config : TrackerConfig ℝ} (hc : config.validate = .ok ())
    (handle : BodyHandle) :
    (∃ t, createAtRest handle config = .ok t) ∧
    (∀ s timestamp, s.Sound → ∃ t, create handle config s timestamp = .ok t) ∧
    ∀ t, (createAtRest handle config = .ok t ∨
        ∃ s timestamp, s.Sound ∧ create handle config s timestamp = .ok t) →
      ∀ inputs : List (Input ℝ), (∀ input ∈ inputs, input.Symmetric) →
        let reached := (t.processAll inputs).2
        reached.state.Sound ∧ reached.consecutiveFailures = 0 ∧
        (∀ input : Input ℝ, input.Symmetric → Unreset (reached.process input).events) ∧
        ∀ message : Message ℝ, message.reading.Symmetric → ∀ outcome,
          (reached.process (.measurement message)).result = .ok outcome →
            (outcome = .rejectedInvalid .measurementCovarianceNotPositiveDefinite ↔
              ¬message.reading.noise.toMatrix.PosDef) ∧
            (message.reading.noise.toMatrix.PosDef →
              ∃ d, outcome = .applied d ∨ outcome = .rejectedOutlier d) := by
  have hvalid := TrackerConfig.validate_spec hc
  refine ⟨⟨_, createAtRest_eq hc handle⟩, fun s timestamp _ => ⟨_, create_eq hc handle s timestamp⟩, ?_⟩
  intro t hset inputs hi reached
  have ht : t.Sound := by
    rcases hset with hrest | ⟨s, timestamp, hs, hknown⟩
    · cases Except.ok.inj ((createAtRest_eq hc handle).symm.trans hrest)
      have hunit : (PoseState.initial : PoseState ℝ).orientation.IsUnit := by
        simp [Quaternion.IsUnit, Quaternion.normSq, PoseState.initial, Quaternion.identity]
      exact ⟨hvalid, PoseState.sound_resetCovariance hunit hvalid.initialCovariance_pos, rfl⟩
    · cases Except.ok.inj ((create_eq hc handle s timestamp).symm.trans hknown)
      exact ⟨hvalid, hs, rfl⟩
  have hreached : reached.Sound := processAll_sound ht hi
  refine ⟨hreached.state, hreached.failures, fun input hsymm => (process_sound hreached hsymm).2.1, ?_⟩
  intro message hsymm outcome ho
  have hinput : (Input.measurement message).Symmetric := hsymm
  exact (process_sound hreached hinput).2.2 message rfl outcome ho

/-- A damped tracker with a gate, taken forward and corrected by an orientation. -/
theorem stays_sound_damped :
    ∃ t, createAtRest ⟨1⟩ { (TrackerConfig.standard : TrackerConfig ℝ) with
        motion := Motion.damped, gate := some 9 } = .ok t ∧
      (t.processAll [.timeStep 1, .measurement ⟨⟨1⟩, ⟨7⟩, 2,
        .orientation ⟨0.8, 0.6, 0, 0⟩ (Mat.scalar 3 1)⟩]).2.state.Sound := by
  have hsymm : (Mat.scalar 3 (1 : ℝ)).toMatrix.IsSymm :=
    isSymm_of_posSemidef (Mat.posDef_scalar one_pos).posSemidef
  obtain ⟨⟨t, ht⟩, -, h⟩ := stays_sound TrackerConfig.validate_damped ⟨1⟩
  refine ⟨t, ht, (h t (.inl ht) _ fun input hmem => ?_).1⟩
  rcases List.mem_cons.1 hmem with rfl | hmem
  · exact trivial
  · cases List.mem_singleton.1 hmem
    exact hsymm

end Tracker

end PoseFilter
