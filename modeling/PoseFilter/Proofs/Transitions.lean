import PoseFilter.Tracker.Basic

/-!
# What an input can do to a tracker

Three layers look at an input: the tracker checks whom a message is for, the prediction checks the
time, and the correction checks the measurement.  This file says once what can come out of the three
together, over any type of numbers:

* `predicted_of_toGrid`, `Correction.corrected_of_proposal` : the prediction and the correction of a
  state whose covariance has the right shape.
* `Reading.model` : the four kinds of readings as measurement models.
* `Tracker.Transition`, `Tracker.process_transition` : the ways in which an input can be answered.
* `Tracker.attempt_cases`, `Tracker.counted_correct` : the ways in which a correction can end, and what
  none of them touches; without a gate, one that can be written is applied
  (`Tracker.correctBy_of_ungated`).
-/

namespace PoseFilter

open FilterState

/-! ### Prediction -/

section Predict

variable {α : Type} [Scalar α]

/-- The state that a step of a motion leads to. -/
def Motion.carried (m : Motion α) (s : PoseState α) (p : Mat α PoseState.dim PoseState.dim)
    (dt : α) : PoseState α :=
  let a := transition dt (m.attenuation dt)
  { advanceMean s dt (m.attenuation dt) with
    covariance := (a * p * a.transpose + m.noise dt).symmetrized.toGrid }

/-- **The prediction of a state of the right shape** fails only for its time step. -/
theorem predicted_of_toGrid {s : PoseState α} {p : Mat α PoseState.dim PoseState.dim}
    (hp : s.covariance = p.toGrid) (m : Motion α) (dt : α) :
    predicted s m.toModel dt =
      if dt < 0 then .error (.negativeTimeStep dt)
      else if Scalar.isFinite dt then .ok (m.carried s p dt)
      else .error (.invalidParameter "dt" (.notFinite dt)) := by
  have hs : covariance? s = .ok p := covariance?_of_toGrid (S := PoseState α) hp
  have hmoved : covariance? (m.advance s dt) = .ok (Motion.transition dt (m.attenuation dt) * p *
      (Motion.transition dt (m.attenuation dt)).transpose) := by
    refine covariance?_of_toGrid (S := PoseState α) ?_
    change Motion.carry s.covariance dt (m.attenuation dt) = _
    simp only [Motion.carry, hp, Grid.asMat?_toGrid]
  have hnoise : ((m.noise dt).toGrid).asMat? (dim (PoseState α)) (dim (PoseState α)) =
      some (m.noise dt) := Grid.asMat?_toGrid _
  unfold predicted
  by_cases hneg : dt < 0
  · simp only [if_pos hneg]
    rfl
  · by_cases hfin : Scalar.isFinite dt = true
    · simp only [if_neg hneg, hfin, Bool.not_true, Bool.false_eq_true, if_false, if_true, bind,
        Except.bind, pure, Except.pure, hs, Motion.toModel, hnoise, hmoved]
      rfl
    · simp only [if_neg hneg, hfin, Bool.not_false, if_true]
      rfl

end Predict

/-! ### Readings as measurement models -/

/-- The same observation with noise of a given covariance. -/
def MeasurementModel.withNoise {S V α : Type} (model : MeasurementModel S V α)
    (noise : Mat α model.dim model.dim) : MeasurementModel S V α :=
  { model with covariance := fun _ => noise.toGrid }

namespace Reading

variable {α : Type}

/-- The type of the value that a reading carries. -/
def Value : Reading α → Type
  | orientation _ _ => Quaternion α
  | position _ _ => Vec3 α
  | pose _ _ => Pose α
  | angularVelocity _ _ => Vec3 α

variable [Scalar α]

/-- The measurement model of a reading. -/
def model : (r : Reading α) → MeasurementModel (PoseState α) r.Value α
  | orientation value noise => Measurement.orientation value noise
  | position value noise => Measurement.position value noise
  | pose value noise => Measurement.pose value noise
  | angularVelocity value noise => Measurement.angularVelocity value noise

/-- The covariance of the noise of a reading. -/
def noise : (r : Reading α) → Mat α r.model.dim r.model.dim
  | orientation _ noise => noise
  | position _ noise => noise
  | pose _ noise => noise
  | angularVelocity _ noise => noise

theorem covariance_model (r : Reading α) (s : PoseState α) :
    r.model.covariance s = r.noise.toGrid := by
  cases r <;> rfl

/-- The same value reported with noise of another covariance. -/
def withNoise : (r : Reading α) → Mat α r.model.dim r.model.dim → Reading α
  | orientation value _ => fun noise => orientation value noise
  | position value _ => fun noise => position value noise
  | pose value _ => fun noise => pose value noise
  | angularVelocity value _ => fun noise => angularVelocity value noise

theorem size_difference (r : Reading α) (a b : r.Value) :
    (r.model.difference a b).size = r.model.dim := by
  cases r with
  | orientation value noise => rfl
  | position value noise => rfl
  | pose value noise => simp [model, Measurement.pose, Measurement.components]
  | angularVelocity value noise => rfl

end Reading

theorem Tracker.correctBy_eq {α : Type} [Spectral α] (t : Tracker α) (r : Reading α) :
    t.correctBy r = t.correct r.model := by
  cases r <;> rfl

theorem Tracker.correctBy_withNoise {α : Type} [Spectral α] (t : Tracker α) (r : Reading α)
    (noise : Mat α r.model.dim r.model.dim) :
    t.correctBy (r.withNoise noise) = t.correct (r.model.withNoise noise) := by
  cases r <;> rfl

/-! ### Corrections -/

theorem Correction.corrected_of_proposal {α S : Type} [Spectral α] [FilterState S α] {m : Nat}
    {c : Correction S α (dim S) m} {p : Mat α (dim S) (dim S)}
    (hp : covariance c.prior = p.toGrid) {q : Proposal α (dim S) m} (hq : c.proposal = .ok q) :
    c.corrected =
      if q.change.isFinite && meanIsFinite (retract c.prior q.change) then
        if (Correction.correctedCovariance p q).isPositiveSemidefinite then
          .ok (withCovariance (retract c.prior q.change)
            (Correction.correctedCovariance p q).toGrid)
        else .error .invalidCommittedCovariance
      else .error .nonFiniteCorrection := by
  simp only [Correction.corrected, hq, bind, Except.bind, covariance?_of_toGrid hp]
  generalize (Correction.correctedCovariance p q).isPositiveSemidefinite = semidefinite
  generalize meanIsFinite (retract c.prior q.change) = finite
  generalize q.change.isFinite = changeFinite
  cases changeFinite <;> cases finite <;> cases semidefinite <;> rfl

/-! ### Answers -/

/-- The time of an input. -/
def Input.time {α : Type} : Input α → α
  | timeStep time => time
  | measurement message => message.timestamp

namespace Tracker

variable {α : Type} [Spectral α]

/-- The tracker with a predicted state. -/
def advancedTo (t : Tracker α) (time : α) (s : PoseState α) : Tracker α :=
  { t with state := s, timestamp := time }

/-- The prediction of the state of a tracker at a later time. -/
def foreseen (t : Tracker α) (time : α) : Except (FilterError α) (PoseState α) :=
  predicted t.state t.config.motion.toModel (time - t.timestamp)

/-- An input that the tracker has to act on: a time ahead of its own, or a message for its body. -/
def Concerns (t : Tracker α) : Input α → Prop
  | .timeStep time => t.timestamp < time
  | .measurement message => message.body = t.handle

/-- The ways in which a tracker answers an input. -/
inductive Transition (t : Tracker α) :
    Input α → Reply α (Except (FilterError α) (Outcome α)) → Prop
  /-- A time that is not ahead. -/
  | idle {time : α} : ¬t.timestamp < time → Transition t (.timeStep time) ⟨.ok .predicted, t, []⟩
  /-- A message for another body. -/
  | misaddressed {message : Message α} : message.body ≠ t.handle →
      Transition t (.measurement message)
        ⟨.error (.invalidParameter "body_handle" (.misaddressed message.body t.handle)), t, []⟩
  /-- A time before that of the state. -/
  | stale (input : Input α) : t.Concerns input → input.time < t.timestamp →
      Transition t input ⟨.error (.outOfOrder input.time t.timestamp), t, []⟩
  /-- A time to which there is no prediction. -/
  | unforeseen (input : Input α) {e : FilterError α} : t.Concerns input →
      ¬input.time < t.timestamp → t.foreseen input.time = .error e →
      Transition t input ⟨.error e, t, []⟩
  /-- A prediction. -/
  | advanced {time : α} {s : PoseState α} : t.timestamp < time → ¬time < t.timestamp →
      t.foreseen time = .ok s →
      Transition t (.timeStep time)
        ⟨.ok .predicted, t.advancedTo time s, predictionEvents (time - t.timestamp) s⟩
  /-- A prediction and a correction, however the correction ends. -/
  | corrected {message : Message α} {s : PoseState α} : message.body = t.handle →
      ¬message.timestamp < t.timestamp → t.foreseen message.timestamp = .ok s →
      Transition t (.measurement message)
        ⟨.ok ((t.advancedTo message.timestamp s).correctBy message.reading).result,
          ((t.advancedTo message.timestamp s).correctBy message.reading).tracker,
          predictionEvents (message.timestamp - t.timestamp) s ++
            ((t.advancedTo message.timestamp s).correctBy message.reading).events⟩

/-- A property that every input of a run has for the tracker that is given it. -/
def Throughout (P : Tracker α → Input α → Prop) (t : Tracker α) : List (Input α) → Prop
  | [] => True
  | input :: rest => P t input ∧ Throughout P (t.process input).tracker rest

theorem throughout_of_forall {P : Tracker α → Input α → Prop} (h : ∀ t input, P t input)
    {t : Tracker α} {inputs : List (Input α)} : t.Throughout P inputs := by
  induction inputs generalizing t with
  | nil => exact trivial
  | cons input rest ih => exact ⟨h t input, ih⟩

theorem Throughout.take {P : Tracker α → Input α → Prop} {t : Tracker α} {inputs : List (Input α)}
    (h : t.Throughout P inputs) (n : Nat) : t.Throughout P (inputs.take n) := by
  induction inputs generalizing t n with
  | nil => simpa using h
  | cons input rest ih =>
    cases n with
    | zero => exact trivial
    | succ n => exact ⟨h.1, ih h.2 n⟩

/-- The messages of a run with what each came to. -/
def answers (t : Tracker α) (inputs : List (Input α)) :
    List (Message α × Except (FilterError α) (Outcome α)) :=
  (inputs.zip (t.processAll inputs).1).filterMap fun
    | (.measurement message, result) => some (message, result)
    | (.timeStep _, _) => none

@[simp]
theorem answers_nil (t : Tracker α) : t.answers [] = [] := rfl

@[simp]
theorem answers_timeStep (t : Tracker α) (time : α) (rest : List (Input α)) :
    t.answers (.timeStep time :: rest) = (t.process (.timeStep time)).tracker.answers rest := rfl

@[simp]
theorem answers_measurement (t : Tracker α) (message : Message α) (rest : List (Input α)) :
    t.answers (.measurement message :: rest) =
      (message, (t.process (.measurement message)).result) ::
        (t.process (.measurement message)).tracker.answers rest := rfl

theorem predictTo_of_lt {t : Tracker α} {time : α} (h : time < t.timestamp) :
    t.predictTo time = ⟨.error (.outOfOrder time t.timestamp), t, []⟩ := by
  rw [predictTo, if_pos h]

theorem predictTo_of_foreseen_error {t : Tracker α} {time : α} {e : FilterError α}
    (h : ¬time < t.timestamp) (he : t.foreseen time = .error e) :
    t.predictTo time = ⟨.error e, t, []⟩ := by
  rw [predictTo, if_neg h]
  simp only [predict, show predicted _ _ _ = _ from he, Update.ofExcept_error]

theorem predictTo_of_foreseen_ok {t : Tracker α} {time : α} {s : PoseState α}
    (h : ¬time < t.timestamp) (hs : t.foreseen time = .ok s) :
    t.predictTo time =
      ⟨.ok (), t.advancedTo time s, predictionEvents (time - t.timestamp) s⟩ := by
  rw [predictTo, if_neg h]
  simp only [predict, show predicted _ _ _ = _ from hs, Update.ofExcept_ok]
  rfl

/-- **Every answer is one of these.** -/
theorem process_transition (t : Tracker α) (input : Input α) :
    t.Transition input (t.process input) := by
  cases input with
  | timeStep time =>
    by_cases hahead : t.timestamp < time
    · rw [process, if_pos hahead]
      by_cases hlt : time < t.timestamp
      · rw [predictTo_of_lt hlt]
        exact .stale (.timeStep time) hahead hlt
      · cases hs : t.foreseen time with
        | error e =>
          rw [predictTo_of_foreseen_error hlt hs]
          exact .unforeseen (.timeStep time) hahead hlt hs
        | ok s =>
          rw [predictTo_of_foreseen_ok hlt hs]
          exact .advanced hahead hlt hs
    · rw [process, if_neg hahead]
      exact .idle hahead
  | measurement message =>
    rw [process, receive]
    by_cases hbody : message.body = t.handle
    · rw [if_neg fun h => h hbody]
      by_cases hlt : message.timestamp < t.timestamp
      · rw [predictTo_of_lt hlt]
        exact .stale (.measurement message) hbody hlt
      · cases hs : t.foreseen message.timestamp with
        | error e =>
          rw [predictTo_of_foreseen_error hlt hs]
          exact .unforeseen (.measurement message) hbody hlt hs
        | ok s =>
          rw [predictTo_of_foreseen_ok hlt hs]
          exact .corrected hbody hlt hs
    · rw [if_pos hbody]
      exact .misaddressed hbody

theorem process_timeStep_of_foreseen {t : Tracker α} {time : α} {s : PoseState α}
    (hahead : t.timestamp < time) (hlt : ¬time < t.timestamp) (hs : t.foreseen time = .ok s) :
    t.process (.timeStep time) =
      ⟨.ok .predicted, t.advancedTo time s, predictionEvents (time - t.timestamp) s⟩ := by
  rw [process, if_pos hahead, predictTo_of_foreseen_ok hlt hs]

theorem process_measurement_of_foreseen {t : Tracker α} {message : Message α} {s : PoseState α}
    (hbody : message.body = t.handle) (hlt : ¬message.timestamp < t.timestamp)
    (hs : t.foreseen message.timestamp = .ok s) :
    t.process (.measurement message) =
      ⟨.ok ((t.advancedTo message.timestamp s).correctBy message.reading).result,
        ((t.advancedTo message.timestamp s).correctBy message.reading).tracker,
        predictionEvents (message.timestamp - t.timestamp) s ++
          ((t.advancedTo message.timestamp s).correctBy message.reading).events⟩ := by
  rw [process, receive, if_neg fun h => h hbody, predictTo_of_foreseen_ok hlt hs]

theorem process_of_misaddressed {t : Tracker α} {message : Message α}
    (hbody : message.body ≠ t.handle) :
    t.process (.measurement message) =
      ⟨.error (.invalidParameter "body_handle" (.misaddressed message.body t.handle)), t, []⟩ := by
  rw [process, receive, if_pos hbody]

/-! ### Attempts -/

section Correct

variable {V : Type} {t : Tracker α} {model : MeasurementModel (PoseState α) V α}
  {c : Correction (PoseState α) α PoseState.dim model.dim}

theorem attempt_of_rejection (h : Correction.begin t.state model t.config.params = c)
    {e : FilterError α} (he : c.rejection = some e) :
    t.attempt model = (.rejectedInvalid e, t.state, []) := by
  simp only [attempt, h, he]

theorem attempt_of_beyondGate (h : Correction.begin t.state model t.config.params = c)
    (hr : c.rejection = none)
    (hg : beyondGate t.config.gate c.numbers.mahalanobisSquared = true) :
    t.attempt model = (.rejectedOutlier c.numbers.mahalanobisSquared, t.state, []) := by
  simp only [attempt, h, hr, hg, if_true]

theorem attempt_of_corrected (h : Correction.begin t.state model t.config.params = c)
    (hr : c.rejection = none)
    (hg : beyondGate t.config.gate c.numbers.mahalanobisSquared = false) {s : PoseState α}
    (hs : c.corrected = .ok s) :
    t.attempt model = (.applied c.numbers.mahalanobisSquared, s, []) := by
  simp only [attempt, h, hr, hg, Bool.false_eq_true, if_false, Correction.commit, hs,
    Update.ofExcept_ok]

theorem attempt_of_uncorrected (h : Correction.begin t.state model t.config.params = c)
    (hr : c.rejection = none)
    (hg : beyondGate t.config.gate c.numbers.mahalanobisSquared = false) {e : FilterError α}
    (he : c.corrected = .error e) :
    t.attempt model = (.rejectedInvalid e, t.state, commitEvents e) := by
  have hprior : c.prior = t.state := by rw [← h]; rfl
  simp only [attempt, h, hr, hg, Bool.false_eq_true, if_false, Correction.commit, he,
    Update.ofExcept_error, hprior]

theorem attempt_cases (h : Correction.begin t.state model t.config.params = c) :
    (∃ e warnings, (c.rejection = some e ∨ c.corrected = .error e) ∧
      t.attempt model = (.rejectedInvalid e, t.state, warnings)) ∨
    (∃ d, t.attempt model = (.rejectedOutlier d, t.state, [])) ∨
    (∃ d s, c.corrected = .ok s ∧ t.attempt model = (.applied d, s, [])) := by
  cases hr : c.rejection with
  | some e => exact .inl ⟨e, [], .inl rfl, attempt_of_rejection h hr⟩
  | none =>
    cases hg : beyondGate t.config.gate c.numbers.mahalanobisSquared with
    | true => exact .inr (.inl ⟨_, attempt_of_beyondGate h hr hg⟩)
    | false =>
      cases hc : c.corrected with
      | error e => exact .inl ⟨e, commitEvents e, .inr rfl, attempt_of_uncorrected h hr hg hc⟩
      | ok s => exact .inr (.inr ⟨_, s, rfl, attempt_of_corrected h hr hg hc⟩)

end Correct

theorem correctBy_of_ungated {t : Tracker α} (hgate : t.config.gate = none) {r : Reading α}
    {c : Correction (PoseState α) α PoseState.dim r.model.dim}
    (h : Correction.begin t.state r.model t.config.params = c) (hr : c.rejection = none)
    {s : PoseState α} (hs : c.corrected = .ok s) :
    t.correctBy r = ⟨.applied c.numbers.mahalanobisSquared,
      { t with state := s, applied := t.applied + 1, consecutiveFailures := 0 }, []⟩ := by
  have hpass : beyondGate t.config.gate c.numbers.mahalanobisSquared = false := by
    rw [hgate]
    rfl
  rw [correctBy_eq, correct, attempt_of_corrected h hr hpass hs]
  rfl

/-! ### Counting -/

/-- The tracker `r` is the tracker `t` but for the counters and, perhaps, a reset of the
covariance. -/
structure Counted (t r : Tracker α) : Prop where
  handle : r.handle = t.handle
  config : r.config = t.config
  timestamp : r.timestamp = t.timestamp
  state : r.state = t.state ∨ ∃ variance, r.state = t.state.resetCovariance variance

theorem counted_recover (t : Tracker α) : t.Counted t.recover.1 := by
  by_cases h : 0 < t.config.maxConsecutiveFailures ∧
      t.config.maxConsecutiveFailures ≤ t.consecutiveFailures
  · simp only [recover, if_pos h]
    exact ⟨rfl, rfl, rfl, .inr ⟨_, rfl⟩⟩
  · simp only [recover, if_neg h]
    exact ⟨rfl, rfl, rfl, .inl rfl⟩

theorem counted_record (t : Tracker α) (outcome : Outcome α) : t.Counted (t.record outcome).1 := by
  cases outcome with
  | predicted => exact ⟨rfl, rfl, rfl, .inl rfl⟩
  | applied d => exact ⟨rfl, rfl, rfl, .inl rfl⟩
  | rejectedOutlier d => exact ⟨rfl, rfl, rfl, .inl rfl⟩
  | rejectedInvalid e =>
    by_cases he : e.originatesInState = true
    · obtain ⟨hh, hc, ht, hs⟩ := counted_recover { t with
        rejectedInvalid := t.rejectedInvalid + 1
        consecutiveFailures := t.consecutiveFailures + 1 }
      simp only [record, if_pos he]
      exact ⟨hh, hc, ht, hs⟩
    · simp only [record, if_neg he]
      exact ⟨rfl, rfl, rfl, .inl rfl⟩

/-- **What a correction cannot touch**: the tracker afterwards is the one before with the state that
the attempt left, counted. -/
theorem counted_correct {V : Type} (t : Tracker α)
    (model : MeasurementModel (PoseState α) V α) :
    Counted { t with state := (t.attempt model).2.1 } (t.correct model).tracker :=
  counted_record _ _

theorem timestamp_of_foreseen {t : Tracker α} {message : Message α} {s : PoseState α}
    (hbody : message.body = t.handle) (hlt : ¬message.timestamp < t.timestamp)
    (hs : t.foreseen message.timestamp = .ok s) :
    (t.process (.measurement message)).tracker.timestamp = message.timestamp := by
  rw [process_measurement_of_foreseen hbody hlt hs, correctBy_eq]
  exact (counted_correct _ _).timestamp

theorem handle_process (t : Tracker α) (input : Input α) :
    (t.process input).tracker.handle = t.handle := by
  have htransition := t.process_transition input
  generalize t.process input = reply at htransition ⊢
  cases htransition with
  | @corrected message s _ _ _ =>
    have hcounted := counted_correct (t.advancedTo message.timestamp s) message.reading.model
    rw [← correctBy_eq] at hcounted
    exact hcounted.handle
  | _ => rfl

theorem processAll_cons (t : Tracker α) (input : Input α) (rest : List (Input α)) :
    (t.processAll (input :: rest)).2 = ((t.process input).tracker.processAll rest).2 := rfl

theorem processAll_append (t : Tracker α) (inputs inputs' : List (Input α)) :
    (t.processAll (inputs ++ inputs')).2 = ((t.processAll inputs).2.processAll inputs').2 := by
  induction inputs generalizing t with
  | nil => rfl
  | cons input rest ih => exact ih _

end Tracker

end PoseFilter
