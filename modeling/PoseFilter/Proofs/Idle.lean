import PoseFilter.Proofs.Drift
import PoseFilter.Proofs.History
import PoseFilter.Proofs.Sequencing

/-!
# Idle time steps

A prediction in two steps is the prediction in one, so a time step between two measurements has no
effect on the second one.  Take a run, and the same run with more time steps in it.  At every moment the
second tracker is either equal to the first or ahead of it by undisturbed motion, to a time that no
measurement to come is before (`Tracker.Leads`).  The next measurement that is taken up brings both to
the same time and makes them equal again, however the correction ends; one that is refused is refused
by both; and the time step at the end makes up for what is left.

* `Tracker.coast` : undisturbed motion of a tracker, a time that is not ahead being ignored;
  `Tracker.Inertial.coast_coast` : only the latest time counts.
* `Input.WithIdleSteps` : the same inputs with time steps put in.
* `Tracker.leads_of_insert`, `Tracker.leads_of_timeStep`, `Tracker.leads_of_measurement` : one input to
  one or both of the trackers; `Tracker.leads_processAll` : a run.
* `Tracker.idle_steps_unobservable` : the runs answer the same and end the same.
-/

namespace PoseFilter

instance : Clock ℝ where
  le_self := fun _ => le_rfl
  not_lt_of_lt := fun _ => not_lt_of_gt
  le_of_not_lt := fun _ _ => not_lt.1
  le_trans := fun _ _ _ => le_trans
  not_sub_neg := fun _ h => not_lt.2 (sub_nonneg.2 (not_lt.1 h))
  isFinite_of_sub := fun _ _ => Exact.isFinite_eq _

/-- The same inputs with time steps put in, none to a time after that of a measurement that is still
to come. -/
inductive Input.WithIdleSteps : List (Input ℝ) → List (Input ℝ) → Prop
  | nil : WithIdleSteps [] []
  | keep (input : Input ℝ) {inputs padded : List (Input ℝ)} : WithIdleSteps inputs padded →
      WithIdleSteps (input :: inputs) (input :: padded)
  | insert {time : ℝ} {inputs padded : List (Input ℝ)} :
      (∀ message, .measurement message ∈ inputs → time ≤ message.timestamp) →
      WithIdleSteps inputs padded → WithIdleSteps inputs (.timeStep time :: padded)

namespace Tracker

/-- A tracker that follows constant velocities, with a covariance over the tangent space. -/
structure Inertial (t : Tracker ℝ) : Prop where
  damping : t.config.motion.damping = none
  shape : ∃ p : Mat ℝ PoseState.dim PoseState.dim, t.state.covariance = p.toGrid

/-- The prediction that an input asks for, if it asks for one, is an exact turn. -/
def TurnsExactly [Diagonalization] (t : Tracker ℝ) (input : Input ℝ) : Prop :=
  t.Concerns input → ¬input.time < t.timestamp →
    Rotation.TurnsExactly (t.state.angularVelocity.scale (input.time - t.timestamp))

/-! ### Undisturbed motion of a tracker -/

/-- The tracker brought forward to a time by undisturbed motion. -/
noncomputable def coast (t : Tracker ℝ) (time : ℝ) : Tracker ℝ :=
  if t.timestamp < time then
    { t with
      state := t.config.motion.flow t.state (time - t.timestamp)
      timestamp := time }
  else t

variable {t u : Tracker ℝ} {time : ℝ}

theorem coast_of_lt (h : t.timestamp < time) :
    t.coast time = { t with
      state := t.config.motion.flow t.state (time - t.timestamp)
      timestamp := time } :=
  if_pos h

theorem coast_of_le (h : time ≤ t.timestamp) : t.coast time = t := if_neg (not_lt.2 h)

@[simp]
theorem handle_coast : (t.coast time).handle = t.handle := by
  unfold coast
  split_ifs <;> rfl

@[simp]
theorem config_coast : (t.coast time).config = t.config := by
  unfold coast
  split_ifs <;> rfl

@[simp]
theorem timestamp_coast : (t.coast time).timestamp = max t.timestamp time := by
  rcases lt_or_ge t.timestamp time with h | h
  · rw [coast_of_lt h, max_eq_right h.le]
  · rw [coast_of_le h, max_eq_left h]

theorem Inertial.coast (ht : t.Inertial) (time : ℝ) : (t.coast time).Inertial := by
  obtain ⟨p, hp⟩ := ht.shape
  refine ⟨by rw [config_coast]; exact ht.damping, ?_⟩
  rcases lt_or_ge t.timestamp time with h | h
  · rw [coast_of_lt h]
    exact ⟨_, Motion.covariance_flow hp _ _⟩
  · rw [coast_of_le h]
    exact ⟨p, hp⟩

/-- **Undisturbed motion in two steps**: only the latest time counts. -/
theorem Inertial.coast_coast (ht : t.Inertial) (a b : ℝ) :
    (t.coast a).coast b = t.coast (max a b) := by
  obtain ⟨p, hp⟩ := ht.shape
  rcases lt_or_ge t.timestamp a with ha | ha
  · rcases lt_or_ge a b with hb | hb
    · have hlater : (t.coast a).timestamp < b := by rwa [timestamp_coast, max_eq_right ha.le]
      have htime : a - t.timestamp + (b - a) = b - t.timestamp := by ring
      rw [coast_of_lt hlater, max_eq_right hb.le, coast_of_lt (ha.trans hb), coast_of_lt ha,
        Motion.flow_flow hp, htime]
    · have hearlier : b ≤ (t.coast a).timestamp := by rwa [timestamp_coast, max_eq_right ha.le]
      rw [coast_of_le hearlier, max_eq_left hb]
  · rw [coast_of_le ha]
    rcases lt_or_ge t.timestamp b with hb | hb
    · rw [max_eq_right (ha.trans hb.le)]
    · rw [coast_of_le hb, coast_of_le (max_le ha hb)]

/-! ### Two trackers -/

/-- The tracker `u` is the tracker `t`, or `t` brought forward by undisturbed motion to a time that is
not after `last` or after any measurement that is still to come. -/
def Leads (t u : Tracker ℝ) (last : ℝ) (inputs : List (Input ℝ)) : Prop :=
  u = t ∨ ∃ time, u = t.coast time ∧ time ≤ last ∧
    ∀ message, .measurement message ∈ inputs → time ≤ message.timestamp

variable {last : ℝ} {inputs padded : List (Input ℝ)}

theorem Inertial.of_leads (ht : t.Inertial) (h : t.Leads u last inputs) : u.Inertial := by
  rcases h with rfl | ⟨time, rfl, -⟩
  · exact ht
  · exact ht.coast time

theorem leads_of_insert (ht : t.Inertial) (h : t.Leads u last inputs) (hlast : time ≤ last)
    (htime : ∀ message, .measurement message ∈ inputs → time ≤ message.timestamp) :
    t.Leads (u.coast time) last inputs := by
  rcases h with rfl | ⟨before, rfl, hbefore, hmessages⟩
  · exact .inr ⟨time, rfl, hlast, htime⟩
  · refine .inr ⟨max before time, ht.coast_coast before time, max_le hbefore hlast, ?_⟩
    intro message hmem
    exact max_le (hmessages message hmem) (htime message hmem)

theorem leads_of_timeStep (ht : t.Inertial) (h : t.Leads u last (.timeStep time :: inputs)) :
    (t.coast time).Leads (u.coast time) last inputs := by
  rcases h with rfl | ⟨before, rfl, hbefore, hmessages⟩
  · exact .inl rfl
  · have hswap : (t.coast before).coast time = (t.coast time).coast before := by
      rw [ht.coast_coast, ht.coast_coast, max_comm]
    exact .inr ⟨before, hswap, hbefore, fun message hmem =>
      hmessages message (List.mem_cons_of_mem _ hmem)⟩

theorem eq_of_leads (h : t.Leads u last inputs) (hlast : last ≤ t.timestamp) : u = t := by
  rcases h with rfl | ⟨time, rfl, htime, -⟩
  · rfl
  · exact coast_of_le (htime.trans hlast)

/-! ### Inputs -/

section Steps

variable [Diagonalization]

theorem Inertial.process (ht : t.Inertial) (input : Input ℝ) : (t.process input).tracker.Inertial := by
  have horderly : t.Orderly := ⟨Exact.isFinite_eq _, ht.shape⟩
  have hconfig : (t.process input).tracker.config = t.config :=
    (tallied_answer t (.process input)).config
  exact ⟨by rw [hconfig]; exact ht.damping, (process_orderly horderly input).1.shape⟩

theorem Inertial.foreseen_eq (ht : t.Inertial) (h : t.timestamp ≤ time)
    (hturn : Rotation.TurnsExactly (t.state.angularVelocity.scale (time - t.timestamp))) :
    t.foreseen time = .ok (t.config.motion.flow t.state (time - t.timestamp)) := by
  obtain ⟨p, hp⟩ := ht.shape
  exact Motion.predicted_eq_flow ht.damping hp (sub_nonneg.2 h) hturn

theorem Inertial.process_timeStep (ht : t.Inertial) (h : t.TurnsExactly (.timeStep time)) :
    (t.process (.timeStep time)).tracker = t.coast time := by
  rcases lt_or_ge t.timestamp time with hahead | hbehind
  · have hlt : ¬time < t.timestamp := not_lt.2 hahead.le
    rw [process_timeStep_of_foreseen hahead hlt (ht.foreseen_eq hahead.le (h hahead hlt)),
      coast_of_lt hahead]
    rfl
  · have hidle : t.process (.timeStep time) = ⟨.ok .predicted, t, []⟩ := if_neg (not_lt.2 hbehind)
    rw [hidle, coast_of_le hbehind]

/-- A message that is taken up finds a tracker that has coasted towards its time in the state in which
it would find it otherwise. -/
theorem Inertial.process_coast (ht : t.Inertial) {message : Message ℝ}
    (hbody : message.body = t.handle) (hlater : t.timestamp < time)
    (htime : time ≤ message.timestamp) (h : t.TurnsExactly (.measurement message))
    (hcoast : (t.coast time).TurnsExactly (.measurement message)) :
    ((t.coast time).process (.measurement message)).result =
        (t.process (.measurement message)).result ∧
      ((t.coast time).process (.measurement message)).tracker =
        (t.process (.measurement message)).tracker := by
  obtain ⟨p, hp⟩ := ht.shape
  have hle : t.timestamp ≤ message.timestamp := hlater.le.trans htime
  have hle' : (t.coast time).timestamp ≤ message.timestamp := by
    rw [timestamp_coast]
    exact max_le hle htime
  have hbody' : message.body = (t.coast time).handle := by rw [handle_coast]; exact hbody
  have hs := ht.foreseen_eq hle (h hbody (not_lt.2 hle))
  have hs' := (ht.coast time).foreseen_eq hle' (hcoast hbody' (not_lt.2 hle'))
  have hsum : time - t.timestamp + (message.timestamp - time) =
      message.timestamp - t.timestamp := by ring
  -- both are advanced to the same state at the same time, so the correction starts from one tracker
  have hsame : (t.coast time).advancedTo message.timestamp
      ((t.coast time).config.motion.flow (t.coast time).state
        (message.timestamp - (t.coast time).timestamp)) =
      t.advancedTo message.timestamp
        (t.config.motion.flow t.state (message.timestamp - t.timestamp)) := by
    rw [coast_of_lt hlater]
    simp only [advancedTo, Motion.flow_flow hp, hsum]
  rw [process_measurement_of_foreseen hbody' (not_lt.2 hle') hs',
    process_measurement_of_foreseen hbody (not_lt.2 hle) hs, hsame]
  exact ⟨rfl, rfl⟩

theorem leads_of_measurement (ht : t.Inertial) {message : Message ℝ}
    (h : t.Leads u last (.measurement message :: inputs))
    (hturn : t.TurnsExactly (.measurement message))
    (hturn' : u.TurnsExactly (.measurement message)) :
    (u.process (.measurement message)).result = (t.process (.measurement message)).result ∧
      (t.process (.measurement message)).tracker.Leads (u.process (.measurement message)).tracker last
        inputs := by
  rcases h with rfl | ⟨time, rfl, hlast, hmessages⟩
  · exact ⟨rfl, .inl rfl⟩
  · have htime : time ≤ message.timestamp := hmessages message List.mem_cons_self
    by_cases hbody : message.body = t.handle
    · rcases lt_or_ge t.timestamp time with hlater | hearlier
      · obtain ⟨hresult, htracker⟩ := ht.process_coast hbody hlater htime hturn hturn'
        exact ⟨hresult, .inl htracker⟩
      · rw [coast_of_le hearlier]
        exact ⟨rfl, .inl rfl⟩
    · have hbody' : message.body ≠ (t.coast time).handle := by rw [handle_coast]; exact hbody
      rw [process_of_misaddressed hbody, process_of_misaddressed hbody', handle_coast]
      exact ⟨rfl, .inr ⟨time, rfl, hlast, fun other hmem =>
        hmessages other (List.mem_cons_of_mem _ hmem)⟩⟩

/-- **A run and the same run with idle time steps** give the same answers, and the second one leads at
the end if not before. -/
theorem leads_processAll (hpadded : Input.WithIdleSteps inputs padded)
    (hlast : ∀ input ∈ padded, input.time ≤ last) (ht : t.Inertial) (h : t.Leads u last inputs)
    (hrun : t.Throughout TurnsExactly inputs) (hrun' : u.Throughout TurnsExactly padded) :
    u.answers padded = t.answers inputs ∧
      (t.processAll inputs).2.Leads (u.processAll padded).2 last [] := by
  -- over the way the steps were put in: `Leads` is kept by what both take and by what one takes alone
  induction hpadded generalizing t u with
  | nil => exact ⟨rfl, h⟩
  | @keep input inputs padded _ ih =>
    obtain ⟨hturn, hrest⟩ := hrun
    obtain ⟨hturn', hrest'⟩ := hrun'
    have hlast' := fun other hmem => hlast other (List.mem_cons_of_mem _ hmem)
    cases input with
    | timeStep time =>
      have hstep := leads_of_timeStep ht h
      rw [← ht.process_timeStep hturn, ← (ht.of_leads h).process_timeStep hturn'] at hstep
      exact ih hlast' (ht.process _) hstep hrest hrest'
    | measurement message =>
      obtain ⟨hresult, hleads⟩ := leads_of_measurement ht h hturn hturn'
      obtain ⟨hanswers, hend⟩ := ih hlast' (ht.process _) hleads hrest hrest'
      rw [answers_measurement, answers_measurement, hresult, hanswers]
      exact ⟨rfl, hend⟩
  | @insert time inputs padded htime _ ih =>
    obtain ⟨hturn', hrest'⟩ := hrun'
    have hbound : time ≤ last := hlast (.timeStep time) List.mem_cons_self
    have hstep := leads_of_insert ht h hbound htime
    rw [← (ht.of_leads h).process_timeStep hturn'] at hstep
    exact ih (fun other hmem => hlast other (List.mem_cons_of_mem _ hmem)) ht hstep hrun hrest'

theorem le_timestamp_of_getLast (ht : t.Inertial) (hlast : inputs.getLast? = some (.timeStep last))
    (hrun : t.Throughout TurnsExactly inputs) : last ≤ (t.processAll inputs).2.timestamp := by
  induction inputs generalizing t with
  | nil => cases hlast
  | cons input rest ih =>
    obtain ⟨hturn, hrest⟩ := hrun
    cases rest with
    | nil =>
      cases Option.some.inj hlast
      change last ≤ (t.process (.timeStep last)).tracker.timestamp
      rw [ht.process_timeStep hturn, timestamp_coast]
      exact le_max_right _ _
    | cons next rest =>
      rw [List.getLast?_cons_cons] at hlast
      exact ih (ht.process input) hlast hrest

/-- **Idle time steps cannot be observed.**  Let a tracker follow constant velocities, with a
covariance over the tangent space.  Put time steps into a run, anywhere and as many as you like, as
long as none goes past a measurement that is still to come, and let the run end with a time step to a
time that none of the inputs is after.  Then every measurement comes to the same, be it an outcome or
an error, and the tracker ends the same: mean, covariance, time and counters.  No step of either run
may turn the body by so little that the exponential falls back on its series. -/
theorem idle_steps_unobservable (hmotion : t.config.motion.damping = none)
    {p : Mat ℝ PoseState.dim PoseState.dim} (hshape : t.state.covariance = p.toGrid)
    (hpadded : Input.WithIdleSteps inputs padded)
    (hend : inputs.getLast? = some (.timeStep last)) (hlast : ∀ input ∈ padded, input.time ≤ last)
    (hrun : t.Throughout TurnsExactly inputs) (hrun' : t.Throughout TurnsExactly padded) :
    t.answers padded = t.answers inputs ∧ (t.processAll padded).2 = (t.processAll inputs).2 := by
  have ht : t.Inertial := ⟨hmotion, p, hshape⟩
  obtain ⟨hanswers, hleads⟩ := leads_processAll hpadded hlast ht (.inl rfl) hrun hrun'
  exact ⟨hanswers, eq_of_leads hleads (le_timestamp_of_getLast ht hend hrun)⟩

end Steps

/-- A turning body that is measured after two seconds, with and without a look at it after one. -/
theorem idle_steps_unobservable_turning :
    let measured : Input ℝ := .measurement
      ⟨⟨1⟩, ⟨7⟩, 2, .pose ⟨⟨1, 0, 0⟩, Quaternion.identity⟩ (Mat.scalar 6 1)⟩
    turning.answers [.timeStep 1, measured, .timeStep 2] =
        turning.answers [measured, .timeStep 2] ∧
      (turning.processAll [.timeStep 1, measured, .timeStep 2]).2 =
        (turning.processAll [measured, .timeStep 2]).2 := by
  intro measured
  have hinertial : turning.Inertial := ⟨rfl, _, rfl⟩
  have hcoast : turning.coast 1 = { turning with
      state := Motion.constantVelocity.flow PoseState.turning (1 - 0), timestamp := 1 } :=
    coast_of_lt zero_lt_one
  have hfirst : turning.TurnsExactly (.timeStep 1) := fun _ _ =>
    PoseState.turnsExactly_turning (.inr (by norm_num [Input.time, turning]))
  have hlong : turning.TurnsExactly measured := fun _ _ =>
    PoseState.turnsExactly_turning (.inr (by norm_num [measured, Input.time, turning]))
  have hshort : (turning.coast 1).TurnsExactly measured := by
    rw [hcoast]
    exact fun _ _ => PoseState.turnsExactly_turning (.inr (by norm_num [measured, Input.time]))
  -- a message brings the tracker to its time, and the step at the end finds nothing to do
  have hidle : ∀ t : Tracker ℝ, t.Inertial → t.handle = ⟨1⟩ → t.timestamp ≤ 2 →
      t.TurnsExactly measured → t.Throughout TurnsExactly [measured, .timeStep 2] := by
    intro t ht hhandle hle hturn
    have hforeseen := ht.foreseen_eq hle (hturn hhandle.symm (not_lt.2 hle))
    have harrived : (t.process measured).tracker.timestamp = 2 :=
      timestamp_of_foreseen hhandle.symm (not_lt.2 hle) hforeseen
    exact ⟨hturn, fun hahead _ => absurd hahead harrived.not_lt, trivial⟩
  refine idle_steps_unobservable rfl rfl (.insert ?_ (.keep measured (.keep _ .nil))) rfl ?_
    (hidle turning hinertial rfl (by norm_num [turning]) hlong) ⟨hfirst, ?_⟩
  · intro message hmem
    obtain h | h := List.mem_pair.1 hmem
    · have htime : message.timestamp = 2 := congrArg Input.time h
      rw [htime]
      norm_num
    · cases h
  · simp [measured, Input.time]
  · rw [hinertial.process_timeStep hfirst]
    exact hidle _ (hinertial.coast 1) (by rw [handle_coast]; rfl)
      (by rw [timestamp_coast]; norm_num [turning]) hshort

end Tracker

end PoseFilter
