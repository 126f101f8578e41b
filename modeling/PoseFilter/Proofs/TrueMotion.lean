import PoseFilter.Proofs.DoubleCover
import PoseFilter.Proofs.Phases
import PoseFilter.Proofs.Soundness
import PoseFilter.Simulation.Truth

/-!
# A filter on the true motion

The motion of a scenario is given in closed form from its start, while the filter goes from one input
to the next and corrects itself.  They agree: a filter that is on the true motion and is told nothing
but the truth stays on it, and every measurement is applied at the distance zero.

Predictions stay on the true motion because the rotation from the start to a time, followed by the one
of the step, is the rotation from the start to the later time (`Truth.mean_flow`).  A true measurement
has no residual, whatever the sign of its quaternion (`Reading.residual_eq_zero`).  So nothing is added
to the mean, since the gain multiplies the residual and opposite sigma points cancel
(`Reading.corrected_of_residual_eq_zero`).

* `Reading.Tells`, `Input.Tells` : what it means to tell the truth.
* `Tracker.Follows` : a tracker on the true motion; `Tracker.follows_process` : one input keeps it there.
* `Tracker.stays_on_truth` : so does every run.
-/

open Matrix

namespace PoseFilter

/-- The mean of a state: everything but the covariance. -/
def PoseState.mean (s : PoseState ℝ) : TrueState ℝ := ⟨s.pose, s.velocity, s.angularVelocity⟩

/-! ### The closed form -/

namespace Truth

variable {truth : Truth ℝ} {time : ℝ}

theorem orientation_atTime (h : Rotation.TurnsExactly (truth.angularVelocity.scale time)) :
    (truth.atTime time).pose.orientation =
      Rotation.spin truth.angularVelocity time * truth.start.orientation :=
  congrArg (· * truth.start.orientation) (Rotation.ofVector_scale h)

theorem isUnit_orientation_atTime (hstart : truth.start.orientation.IsUnit) (time : ℝ) :
    (truth.atTime time).pose.orientation.IsUnit := by
  obtain ⟨heq, hunit⟩ := (Rotation.ofVector_isUnit (truth.angularVelocity.scale time)).compose hstart
  rwa [heq] at hunit

/-- **Undisturbed motion stays on the true motion.** -/
theorem mean_flow (hstart : truth.start.orientation.IsUnit) {s : PoseState ℝ}
    (hs : s.mean = truth.atTime time)
    (hturn : Rotation.TurnsExactly (truth.angularVelocity.scale time)) {dt : ℝ}
    (hturn' : Rotation.TurnsExactly (truth.angularVelocity.scale (time + dt))) (m : Motion ℝ) :
    (m.flow s dt).mean = truth.atTime (time + dt) := by
  have hunit := isUnit_orientation_atTime hstart time
  obtain ⟨position, orientation, velocity, angularVelocity, covariance⟩ := s
  cases hs
  have hposition := Vec3.add_scale_add_scale truth.start.position truth.linearVelocity time dt
  have horientation : Rotation.spin truth.angularVelocity dt *
      (truth.atTime time).pose.orientation.normalized =
        (truth.atTime (time + dt)).pose.orientation := by
    rw [hunit.normalized_eq, orientation_atTime hturn, orientation_atTime hturn',
      ← Quaternion.mul_assoc, Rotation.spin_mul, add_comm dt]
  exact congrArg₂ (fun x q => (⟨⟨x, q⟩, truth.linearVelocity, truth.angularVelocity⟩ : TrueState ℝ))
    hposition horientation

end Truth

/-! ### A correction by nothing -/

theorem PoseState.retract_zero {s : PoseState ℝ} (hs : s.orientation.IsUnit) :
    s.retract (Column.ofFn 0) = s := by
  have hblock : ∀ k (h : k + 2 < PoseState.dim),
      PoseState.block (Column.ofFn (0 : Fin PoseState.dim → ℝ)) k h = Vec3.zero := by
    intro k h
    ext <;> simp [PoseState.block, Column.ofFn, Vec3.zero]
  have hadd : ∀ v : Vec3 ℝ, v + Vec3.zero = v := fun v => by
    ext <;> exact add_zero _
  have hturn : (Rotation.ofVector (Vec3.zero : Vec3 ℝ) * s.orientation).normalized =
      s.orientation := by
    rw [Rotation.ofVector_zero, Quaternion.one_mul, hs.normalized_eq]
  simp only [retract, hblock, hadd, hturn]

theorem Proposal.ofMoments_zero {n m : Nat} (S : Matrix (Fin m) (Fin m) ℝ)
    (C : Matrix (Fin n) (Fin m) ℝ) :
    (ofMoments S C 0).change = Column.ofFn 0 ∧ (ofMoments S C 0).mahalanobisSquared = 0 := by
  constructor
  · exact congrArg Column.ofFn (mulVec_zero _)
  · exact zero_dotProduct (S⁻¹ *ᵥ 0)

namespace Reading

/-- A reading of the truth: its value is true, the sign of a quaternion apart. -/
def Tells : Reading ℝ → TrueState ℝ → Prop
  | orientation value _, s => s.pose.orientation.SameTurn value
  | position value _, s => value = s.pose.position
  | pose value _, s => value.position = s.pose.position ∧ s.pose.orientation.SameTurn value.orientation
  | angularVelocity value _, s => value = s.angularVelocity

theorem residual_eq_zero {r : Reading ℝ} {s : PoseState ℝ} (hs : s.orientation.IsUnit)
    (h : r.Tells s.mean) : r.residual s = 0 := by
  have hturn : ∀ q, s.orientation.SameTurn q → Rotation.difference q s.orientation = Vec3.zero := by
    intro q hq
    have hw : (s.orientation * s.orientation.conj).w = 1 := by
      rw [← hs, Quaternion.mul_w, Quaternion.conj, Quaternion.normSq]
      ring
    rw [Rotation.difference_of_sameTurn hq (.inl rfl) (hw ▸ one_ne_zero), Rotation.difference_self]
  cases r with
  | orientation q n =>
    simp only [residual, hturn q h]
    funext j
    fin_cases j <;> rfl
  | position z n =>
    cases h
    funext j
    fin_cases j <;> exact sub_self _
  | pose z n =>
    obtain ⟨position, orientation⟩ := z
    obtain ⟨rfl, horientation⟩ := h
    simp only [residual, hturn _ horientation]
    funext j
    fin_cases j <;> first | exact sub_self _ | rfl
  | angularVelocity z n =>
    cases h
    funext j
    fin_cases j <;> exact sub_self _

variable [Diagonalization]

theorem numbers_of_residual_eq_zero {s : PoseState ℝ} (hs : s.Sound) {r : Reading ℝ}
    (hr : r.noise.toMatrix.PosDef) (hzero : r.residual s = 0) {params : UnscentedParams ℝ}
    {w : SigmaWeights ℝ PoseState.dim} (hw : params.weights PoseState.dim = .ok w) :
    (Correction.begin s r.model params).numbers.change = Column.ofFn 0 ∧
      (Correction.begin s r.model params).numbers.mahalanobisSquared = 0 := by
  obtain ⟨p, hp, hpd⟩ := hs.posDef
  obtain ⟨root, share, -, -, hproposal⟩ := propose_eq hs.unit hp hpd.posSemidef r hr hw
  have hbegin : (Correction.begin s r.model params).proposal = propose s r.model params := rfl
  rw [Correction.numbers, hbegin, hproposal, hzero]
  exact Proposal.ofMoments_zero _ _

/-- **Without a residual the mean stays**: the correction is applied at the distance zero. -/
theorem corrected_of_residual_eq_zero {s : PoseState ℝ} (hs : s.Sound) {r : Reading ℝ}
    (hr : r.noise.toMatrix.PosDef) (hzero : r.residual s = 0) {params : UnscentedParams ℝ}
    {w : SigmaWeights ℝ PoseState.dim} (hw : params.weights PoseState.dim = .ok w) :
    (Correction.begin s r.model params).rejection = none ∧
      (Correction.begin s r.model params).numbers.mahalanobisSquared = 0 ∧
      ∃ s', (Correction.begin s r.model params).corrected = .ok s' ∧ s'.Sound ∧ s'.mean = s.mean := by
  obtain ⟨hchange, hdistance⟩ := numbers_of_residual_eq_zero hs hr hzero hw
  obtain ⟨hrejection, s', hs', hsound⟩ := corrected_sound hs hr hw
  obtain ⟨-, -, p, -, -, heq⟩ := Correction.corrected_eq_ok_iff.1 hs'
  rw [hchange] at heq
  refine ⟨hrejection, hdistance, s', hs', hsound, ?_⟩
  calc s'.mean = (s.retract (Column.ofFn 0)).mean := by rw [heq]; rfl
    _ = s.mean := by rw [PoseState.retract_zero hs.unit]

end Reading

/-! ### Trackers on the true motion -/

/-- An input that tells the truth about a body: a time, or a reading of the truth at its time with
positive definite noise. -/
def Input.Tells (truth : Truth ℝ) (body : BodyHandle) : Input ℝ → Prop
  | timeStep _ => True
  | measurement message => message.body = body ∧
    message.reading.Tells (truth.atTime message.timestamp) ∧ message.reading.noise.toMatrix.PosDef

/-- A time that is not earlier than another, with an exact turn between them. -/
structure Truth.Precedes (truth : Truth ℝ) (a b : ℝ) : Prop where
  le : a ≤ b
  turn : Rotation.TurnsExactly (truth.angularVelocity.scale (b - a))

namespace Tracker

/-- A tracker of constant velocities whose mean is true at its time. -/
structure Follows (t : Tracker ℝ) (truth : Truth ℝ) : Prop where
  config : t.config.Valid
  gate : beyondGate t.config.gate 0 = false
  damping : t.config.motion.damping = none
  sound : t.state.Sound
  mean : t.state.mean = truth.atTime t.timestamp

section Run

variable [Diagonalization] {t : Tracker ℝ} {truth : Truth ℝ}

theorem Follows.foreseen (ht : t.Follows truth) (hstart : truth.start.orientation.IsUnit) {time : ℝ}
    (hnow : Rotation.TurnsExactly (truth.angularVelocity.scale t.timestamp))
    (hthen : Rotation.TurnsExactly (truth.angularVelocity.scale time))
    (hstep : truth.Precedes t.timestamp time) :
    ∃ s, t.foreseen time = .ok s ∧ (t.advancedTo time s).Follows truth := by
  obtain ⟨s, hs, hsound⟩ := predicted_sound ht.sound ht.config.motion (sub_nonneg.2 hstep.le)
  obtain ⟨p, hp, -⟩ := ht.sound.posDef
  have hω : t.state.angularVelocity = truth.angularVelocity :=
    congrArg TrueState.angularVelocity ht.mean
  have hflow := Motion.predicted_eq_flow ht.damping hp (sub_nonneg.2 hstep.le) (hω ▸ hstep.turn)
  cases Except.ok.inj (hs.symm.trans hflow)
  have htime : t.timestamp + (time - t.timestamp) = time := by ring
  have hmean := Truth.mean_flow hstart ht.mean hnow (htime ▸ hthen) t.config.motion
  exact ⟨_, hs, ht.config, ht.gate, ht.damping, hsound, hmean.trans (by rw [htime]; rfl)⟩

theorem Follows.correctBy (ht : t.Follows truth) {r : Reading ℝ} (hr : r.noise.toMatrix.PosDef)
    (htells : r.Tells (truth.atTime t.timestamp)) :
    (t.correctBy r).result = .applied 0 ∧ (t.correctBy r).tracker.Follows truth := by
  obtain ⟨w, hw⟩ := ht.config.weights
  have hzero := Reading.residual_eq_zero ht.sound.unit (ht.mean ▸ htells)
  obtain ⟨hrejection, hdistance, s, hs, hsound, hmean⟩ :=
    Reading.corrected_of_residual_eq_zero ht.sound hr hzero hw
  have hattempt := attempt_of_corrected rfl hrejection (by rw [hdistance]; exact ht.gate) hs
  rw [correctBy_eq, correct, hattempt, hdistance]
  exact ⟨rfl, ht.config, ht.gate, ht.damping, hsound, hmean.trans ht.mean⟩

/-- **One input** that tells the truth keeps a tracker on the true motion and brings it to its time; a
measurement is applied at the distance zero. -/
theorem follows_process (ht : t.Follows truth) (hstart : truth.start.orientation.IsUnit)
    {input : Input ℝ} (htells : input.Tells truth t.handle)
    (hnow : Rotation.TurnsExactly (truth.angularVelocity.scale t.timestamp))
    (hthen : Rotation.TurnsExactly (truth.angularVelocity.scale input.time))
    (hstep : truth.Precedes t.timestamp input.time) :
    (t.process input).tracker.Follows truth ∧ (t.process input).tracker.timestamp = input.time ∧
      (t.process input).tracker.handle = t.handle ∧
      ∀ message, input = .measurement message → (t.process input).result = .ok (.applied 0) := by
  obtain ⟨s, hs, hfollows⟩ := ht.foreseen hstart hnow hthen hstep
  have hlt : ¬input.time < t.timestamp := not_lt.2 hstep.le
  cases input with
  | timeStep time =>
    rcases hstep.le.lt_or_eq with hahead | heq
    · have hprocess : t.process (.timeStep time) = ⟨.ok .predicted, t.advancedTo time s, _⟩ :=
        process_timeStep_of_foreseen hahead hlt hs
      rw [hprocess]
      exact ⟨hfollows, rfl, rfl, fun _ hm => nomatch hm⟩
    · -- the time of the state is ignored, and it is already there
      have hidle : t.process (.timeStep time) = ⟨.ok .predicted, t, []⟩ := if_neg heq.not_lt
      rw [hidle]
      exact ⟨ht, heq, rfl, fun _ hm => nomatch hm⟩
  | measurement message =>
    obtain ⟨hbody, hreading, hnoise⟩ := htells
    obtain ⟨hresult, hcorrected⟩ := hfollows.correctBy hnoise hreading
    have hcounted := counted_correct (t.advancedTo message.timestamp s) message.reading.model
    rw [← correctBy_eq] at hcounted
    rw [process_measurement_of_foreseen hbody hlt hs]
    exact ⟨hcorrected, hcounted.timestamp, hcounted.handle, fun _ _ => congrArg Except.ok hresult⟩

/-- **A run** of true inputs keeps a tracker on the true motion. -/
theorem follows_processAll (ht : t.Follows truth) (hstart : truth.start.orientation.IsUnit)
    {inputs : List (Input ℝ)} (htells : ∀ input ∈ inputs, input.Tells truth t.handle)
    (htimes : List.IsChain truth.Precedes (t.timestamp :: inputs.map Input.time))
    (hexact : ∀ time ∈ t.timestamp :: inputs.map Input.time,
      Rotation.TurnsExactly (truth.angularVelocity.scale time)) :
    (∀ answer ∈ t.answers inputs, answer.2 = .ok (.applied 0)) ∧
      ∀ n, (t.processAll (inputs.take n)).2.Follows truth := by
  induction inputs generalizing t with
  | nil =>
    refine ⟨List.forall_mem_nil _, fun n => ?_⟩
    rw [List.take_nil]
    exact ht
  | cons input rest ih =>
    rw [List.map_cons] at htimes hexact
    obtain ⟨hstep, hchain⟩ := List.isChain_cons_cons.1 htimes
    obtain ⟨hnow, hlater⟩ := List.forall_mem_cons.1 hexact
    obtain ⟨hinput, hrest⟩ := List.forall_mem_cons.1 htells
    obtain ⟨hafter, htime, hhandle, hresult⟩ := follows_process ht hstart hinput hnow
      (hlater _ List.mem_cons_self) hstep
    rw [← htime] at hchain hlater
    rw [← hhandle] at hrest
    -- the rest is asked of the tracker after the first input, which is at the time of that input
    obtain ⟨hanswers, hreached⟩ := ih hafter hrest hchain hlater
    constructor
    · cases input with
      | timeStep time => exact hanswers
      | measurement message =>
        rw [answers_measurement]
        exact List.forall_mem_cons.2 ⟨hresult message rfl, hanswers⟩
    · intro n
      cases n with
      | zero => exact ht
      | succ n => exact hreached n

/-- **The truth is a fixed point of the filter.**  Let a tracker with settings that pass their check
follow constant velocities, let its mean be true at its time, and let its covariance be positive
definite.  Let the inputs come in order, and let every measurement be one of this body that carries
the truth at its time, with either sign of a quaternion, and positive definite noise.  Then every
measurement is applied at the distance zero, and after every input the mean is true.  No rotation
from the start or from one input to the next may be so small that the exponential falls back on its
series. -/
theorem stays_on_truth (hstart : truth.start.orientation.IsUnit)
    (hconfig : t.config.validate = .ok ()) (hmotion : t.config.motion.damping = none)
    (hmean : t.state.mean = truth.atTime t.timestamp) {p : Mat ℝ PoseState.dim PoseState.dim}
    (hcovariance : t.state.covariance = p.toGrid) (hposDef : p.toMatrix.PosDef)
    {inputs : List (Input ℝ)} (htells : ∀ input ∈ inputs, input.Tells truth t.handle)
    (htimes : List.IsChain truth.Precedes (t.timestamp :: inputs.map Input.time))
    (hexact : ∀ time ∈ t.timestamp :: inputs.map Input.time,
      Rotation.TurnsExactly (truth.angularVelocity.scale time)) :
    (∀ answer ∈ t.answers inputs, answer.2 = .ok (.applied 0)) ∧
      ∀ n, (t.processAll (inputs.take n)).2.state.mean =
        truth.atTime (t.processAll (inputs.take n)).2.timestamp := by
  have hunit : t.state.orientation.IsUnit := by
    have horientation : t.state.orientation = (truth.atTime t.timestamp).pose.orientation :=
      congrArg (·.pose.orientation) hmean
    rw [horientation]
    exact Truth.isUnit_orientation_atTime hstart _
  have ht : t.Follows truth :=
    ⟨TrackerConfig.validate_spec hconfig, TrackerConfig.not_beyondGate_zero hconfig, hmotion,
      ⟨hunit, p, hcovariance, hposDef⟩, hmean⟩
  obtain ⟨hanswers, hreached⟩ := follows_processAll ht hstart htells htimes hexact
  exact ⟨hanswers, fun n => (hreached n).mean⟩

end Run

/-- A body that moves and turns, followed with a gate and measured with the other sign. -/
theorem stays_on_truth_turning :
    let truth : Truth ℝ := ⟨⟨Vec3.zero, Quaternion.identity⟩, ⟨1, 2, 3⟩, ⟨0, 0, 1⟩⟩
    let t : Tracker ℝ := { turning with
      config := { TrackerConfig.standard with gate := some 9 }
      state := { PoseState.turning with velocity := ⟨1, 2, 3⟩ } }
    let message : Message ℝ := ⟨⟨1⟩, ⟨7⟩, 3, .pose ⟨(truth.atTime 3).pose.position,
      -(truth.atTime 3).pose.orientation⟩ (Mat.scalar 6 1)⟩
    t.answers [.timeStep 1, .measurement message] = [(message, .ok (.applied 0))] ∧
      (t.processAll [.timeStep 1, .measurement message]).2.state.mean =
        truth.atTime (t.processAll [.timeStep 1, .measurement message]).2.timestamp := by
  intro truth t message
  have hconfig : t.config.validate = .ok () := by
    obtain ⟨w, hw⟩ := UnscentedParams.exists_weights_standard (n := PoseState.dim) (by decide)
    have hvariance : (0 : ℝ) < PoseState.initialVariance := by norm_num [PoseState.initialVariance]
    have hmotion : (Motion.constantVelocity : Motion ℝ).check = .ok () := by
      norm_num [Motion.check, Motion.checkDensity, Motion.constantVelocity,
        Motion.defaultPositionNoise, Motion.defaultOrientationNoise, bind, Except.bind, pure,
        Except.pure]
    have hgate : (0 : ℝ) < 9 := by norm_num
    simp only [t, TrackerConfig.validate, TrackerConfig.standard, Exact.isFinite_eq, hvariance, hgate,
      and_self, not_true, if_false, bind, Except.bind, hw, hmotion]
  have hmean : t.state.mean = truth.atTime 0 := by
    have hzero : ∀ v : Vec3 ℝ, v.scale 0 = Vec3.zero := fun v => by
      ext <;> exact mul_zero _
    have hposition : (Vec3.zero : Vec3 ℝ) + Vec3.zero = Vec3.zero := by
      ext <;> exact add_zero _
    simp only [Truth.atTime, truth, hzero, hposition, Rotation.ofVector_zero, Quaternion.one_mul]
    rfl
  have htimes : List.IsChain truth.Precedes [0, 1, 3] := by
    refine .cons_cons ⟨by norm_num, ?_⟩ (.cons_cons ⟨by norm_num, ?_⟩ (.singleton _))
    · exact PoseState.turnsExactly_turning (.inr (by norm_num))
    · exact PoseState.turnsExactly_turning (.inr (by norm_num))
  have hexact : ∀ time ∈ [0, 1, 3], Rotation.TurnsExactly (truth.angularVelocity.scale time) := by
    intro time hmem
    refine PoseState.turnsExactly_turning ?_
    simp only [List.mem_cons, List.not_mem_nil, or_false] at hmem
    rcases hmem with rfl | rfl | rfl
    · exact .inl rfl
    · exact .inr le_rfl
    · exact .inr (by norm_num)
  have htells : ∀ input ∈ [Input.timeStep 1, .measurement message], input.Tells truth t.handle := by
    refine List.forall_mem_cons.2 ⟨trivial, List.forall_mem_singleton.2 ?_⟩
    exact ⟨rfl, ⟨rfl, .inr rfl⟩, Mat.posDef_scalar one_pos⟩
  obtain ⟨hanswers, hreached⟩ := stays_on_truth Quaternion.isUnit_identity hconfig rfl hmean rfl
    (Mat.posDef_scalar (by norm_num [PoseState.initialVariance])) htells htimes hexact
  refine ⟨?_, hreached 2⟩
  rw [answers_timeStep, answers_measurement, answers_nil] at hanswers ⊢
  exact congrArg (fun result => [(message, result)]) (hanswers _ List.mem_cons_self)

end Tracker

end PoseFilter
