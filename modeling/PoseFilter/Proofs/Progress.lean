import PoseFilter.Proofs.Idle
import PoseFilter.Proofs.Runs
import PoseFilter.Proofs.Setup

/-!
# Runs that do not stop

A tracker refuses a message that is older than its state, and a step brings the state to the time of the
step.  So a run would stop if a firing were handed out late.  It is not: after a step at a time, exactly
the firings up to that time have been handed out (`Run.Steady`), so those of the next step lie between
the two times, and they are fed in the order of their times.

* `Tracker.process_timely` : an input in time is taken up.
* `Tracker.Upheld` : what is to be shown of one input in order to have it along a run.
* `Run.step_steady`, `Run.stepAll_steady` : a step, and a run, without an error.
* `Run.completes` : every scenario that passes its check runs to its end, and what is counted.
-/

namespace PoseFilter

namespace Tracker

variable [Diagonalization]

theorem Sound.orderly {t : Tracker ℝ} (h : t.Sound) : t.Orderly := by
  obtain ⟨p, hp, -⟩ := h.state.posDef
  exact ⟨Exact.isFinite_eq _, p, hp⟩

/-- **An input in time is taken up.** -/
theorem process_timely {t : Tracker ℝ} (ht : t.Orderly) (input : Input ℝ)
    (hbody : ∀ message, input = .measurement message → message.body = t.handle)
    (htime : t.timestamp ≤ input.time) :
    (∃ outcome, (t.process input).result = .ok outcome) ∧
      (t.process input).tracker.timestamp = input.time ∧ (t.process input).tracker.Orderly := by
  have hrefusal : t.refusal input = none := by
    cases input with
    | timeStep time => exact if_neg fun h => h.2 (Exact.isFinite_eq _)
    | measurement message =>
      have hnot : ¬message.timestamp < t.timestamp := not_lt.2 htime
      rw [refusal, if_neg fun h => h (hbody message rfl), if_neg hnot,
        if_neg fun h => h (Exact.isFinite_eq _)]
  obtain ⟨e, herror, -⟩ | ⟨-, ⟨outcome, hok, -⟩, htimestamp, horderly⟩ := process_cases ht input
  · cases hrefusal.symm.trans herror
  · refine ⟨⟨outcome, hok⟩, htimestamp.trans ?_, horderly⟩
    cases input with
    | timeStep time => exact (Exact.greater_eq _ _).trans (max_eq_right htime)
    | measurement message => rfl

/-- A property of a tracker that has been given a number of readings, which every reading in time and
every time step keeps. -/
structure Upheld (P : Nat → Tracker ℝ → Prop) : Prop where
  orderly : ∀ {n : Nat} {t : Tracker ℝ}, P n t → t.Orderly
  measurement : ∀ {n : Nat} {t : Tracker ℝ} {message : Message ℝ}, P n t →
    message.body = t.handle → t.timestamp ≤ message.timestamp →
    message.reading.noise.toMatrix.PosDef → P (n + 1) (t.process (.measurement message)).tracker
  timeStep : ∀ {n : Nat} {t : Tracker ℝ} {time : ℝ}, P n t → t.timestamp ≤ time →
    P n (t.process (.timeStep time)).tracker

/-- The counters of a tracker add up to the number of its readings. -/
structure Accounts (n : Nat) (t : Tracker ℝ) : Prop where
  orderly : t.Orderly
  total : t.applied + t.rejectedOutliers + t.rejectedInvalid = n

/-- **Every reading that is taken up is counted once.** -/
theorem upheld_accounts : Upheld Accounts := by
  have htotal : ∀ (t : Tracker ℝ) (input : Input ℝ),
      (t.process input).tracker.applied + (t.process input).tracker.rejectedOutliers +
        (t.process input).tracker.rejectedInvalid = t.applied + t.rejectedOutliers +
          t.rejectedInvalid + (Entry.attempts ⟨.process input, t.process input⟩).toNat := by
    intro t input
    have htallied : t.Tallied (t.process input) := tallied_answer t (.process input)
    have hattempts := congrArg Bool.toNat (attempts_answer t (.process input))
    have hkinds := Reply.toNat_cameTo (t.process input)
    change (Entry.attempts ⟨.process input, t.process input⟩).toNat = _ at hattempts
    rw [htallied.applied, htallied.rejectedOutliers, htallied.rejectedInvalid, hattempts]
    simp only [answer]
    omega
  refine ⟨Accounts.orderly, ?_, ?_⟩
  · intro n t message h hbody htime _
    obtain ⟨⟨outcome, hok⟩, -, horderly⟩ := process_timely h.orderly (.measurement message)
      (fun m hm => by cases hm; exact hbody) htime
    refine ⟨horderly, ?_⟩
    rw [htotal, h.total]
    simp only [Entry.attempts, hok]
    rfl
  · intro n t time h htime
    obtain ⟨-, -, horderly⟩ := process_timely h.orderly (.timeStep time) (fun m hm => nomatch hm) htime
    exact ⟨horderly, (htotal t _).trans h.total⟩

end Tracker

namespace Run

section Steady

variable {γ : Type} [NoiseSource γ ℝ] [Diagonalization] {P : Nat → Tracker ℝ → Prop}

/-- **Firings in the order of their times** are fed without an error. -/
theorem fireAll_upheld (hP : Tracker.Upheld P) (hsource : Sensor.Decides γ) {r : Run γ ℝ} {now : ℝ}
    (h : P r.measurements r.tracker) (hnow : r.tracker.timestamp ≤ now)
    {firings : List (Firing ℝ)} (hsorted : firings.Pairwise fun a b => a.time ≤ b.time)
    (htimes : ∀ f ∈ firings, r.tracker.timestamp ≤ f.time ∧ f.time ≤ now)
    (hvalid : ∀ f ∈ firings, f.sensor.model.Valid) :
    ∃ r', r.fireAll firings = (.ok (), r') ∧ P r'.measurements r'.tracker ∧
      r'.tracker.timestamp ≤ now := by
  induction firings generalizing r with
  | nil => exact ⟨r, rfl, h, hnow⟩
  | cons f rest ih =>
    obtain ⟨hlater, hsorted⟩ := List.pairwise_cons.1 hsorted
    obtain ⟨⟨hearly, hdue⟩, htimes⟩ := List.forall_mem_cons.1 htimes
    obtain ⟨hf, hvalid⟩ := List.forall_mem_cons.1 hvalid
    obtain ⟨message, after, hseen, hmessage⟩ := Sensor.observe_of_valid hsource hf r.tracker.handle
      f.time ((Truth.ofBody r.scenario.body).atTime f.time) r.source
    rw [fireAll]
    cases message with
    | none =>
      rw [fire_of_none hseen]
      exact ih (r := r.taken after none) h hnow hsorted htimes hvalid
    | some m =>
      obtain ⟨hbody, htime, hnoise⟩ := hmessage m rfl
      have htimely : r.tracker.timestamp ≤ m.timestamp := by rw [htime]; exact hearly
      obtain ⟨⟨outcome, hok⟩, htimestamp, -⟩ := Tracker.process_timely (hP.orderly h)
        (.measurement m) (fun m' hm' => by cases hm'; exact hbody) htimely
      have htimestamp' : (r.tracker.process (.measurement m)).tracker.timestamp = f.time :=
        htimestamp.trans htime
      rw [fire_of_some hseen, give_of_ok (r := r.taken after (some m)) hok]
      -- the tracker is now at the time of this firing, and the rest are not earlier
      refine ih (r := (r.taken after (some m)).given (.measurement m))
        (hP.measurement h hbody htimely hnoise) (htimestamp'.trans_le hdue) hsorted ?_ hvalid
      intro g hg
      exact ⟨htimestamp'.trans_le (hlater g hg), (htimes g hg).2⟩

/-- A run at a time: the tracker is there, exactly the firings up to that time have been handed out,
and the sensors are in their ranges. -/
structure Steady (P : Nat → Tracker ℝ → Prop) (now : ℝ) (r : Run γ ℝ) : Prop where
  upheld : P r.measurements r.tracker
  timestamp : r.tracker.timestamp = now
  valid : ∀ s ∈ r.sensors, s.model.Valid
  ticks : ∀ s ∈ r.sensors, ∀ time, s.schedule.Ticks time
  fired : ∀ s ∈ r.sensors, s.schedule.Reaches now s.schedule.fired

omit [NoiseSource γ ℝ] [Diagonalization] in
theorem Steady.punctual {r : Run γ ℝ} {now now' : ℝ} (h : r.Steady P now) (hle : now ≤ now') :
    ∀ s ∈ r.sensors, s.Punctual now' := fun s hs =>
  Sensor.Punctual.later ⟨h.ticks s hs now, _, h.fired s hs, le_rfl⟩ (h.ticks s hs now') hle

omit [NoiseSource γ ℝ] [Diagonalization] in
theorem Steady.time_mem {r : Run γ ℝ} {now now' : ℝ} (h : r.Steady P now) (hle : now ≤ now')
    {f : Firing ℝ} (hf : f ∈ Firing.due now' r.sensors) : now ≤ f.time ∧ f.time ≤ now' := by
  obtain ⟨k, hfired, hk, hdue⟩ := Firing.time_spec (h.punctual hle) hf
  refine ⟨?_, hdue⟩
  by_contra hearly
  rw [← hk] at hearly
  have hk' := (h.fired f.sensor (Firing.sensor_mem hf) k (by omega)).1 (not_le.1 hearly).le
  omega

/-- **One step** without an error. -/
theorem step_steady (hP : Tracker.Upheld P) (hsource : Sensor.Decides γ) {r : Run γ ℝ} {now now' : ℝ}
    (h : r.Steady P now) (hle : now ≤ now') :
    ∃ r', r.step now' = (.ok (), r') ∧ r'.Steady P now' := by
  have hpunctual := h.punctual hle
  have hsorted : (Firing.due now' r.sensors).Pairwise fun a b => a.time ≤ b.time := by
    refine (Firing.due_sorted hpunctual).imp fun {a b} hab => ?_
    rcases (Firing.before_iff le_rfl le_rfl).1 hab with hlt | ⟨hle, -⟩
    · exact (not_le.1 hlt).le
    · exact hle
  have htimes : ∀ f ∈ Firing.due now' r.sensors, r.tracker.timestamp ≤ f.time ∧ f.time ≤ now' := by
    rw [h.timestamp]
    exact fun f hf => h.time_mem hle hf
  -- the firings are fed first, each at its own time, and then the time of the step
  obtain ⟨r₁, hfire, hupheld, htimestamp⟩ := fireAll_upheld hP hsource
    (r := { r with sensors := drained now' r.sensors }) h.upheld (h.timestamp.trans_le hle) hsorted
    htimes fun f hf => h.valid f.sensor (Firing.sensor_mem hf)
  obtain ⟨⟨outcome, hok⟩, htime, -⟩ := Tracker.process_timely (hP.orderly hupheld)
    (.timeStep now') (fun m hm => nomatch hm) htimestamp
  have hstep : r.step now' = (.ok (), (r₁.given (.timeStep now')).score now') := by
    rw [step, hfire]
    simp only [give_of_ok hok]
  obtain ⟨nextReport, journal, hscore⟩ := score_eq (r₁.given (.timeStep now')) now'
  have hsensors : ((r₁.given (.timeStep now')).score now').sensors = drained now' r.sensors := by
    rw [← sensors_step r now', hstep]
  refine ⟨_, hstep, ?_, ?_, ?_, ?_, ?_⟩
  · rw [hscore]
    exact hP.timeStep hupheld htimestamp
  · rw [hscore]
    exact htime
  all_goals
    rw [hsensors]
    intro s' hs'
    obtain ⟨s, hs, rfl⟩ := mem_drained.1 hs'
    obtain ⟨n, hn, -, hdrained⟩ := Sensor.schedule_drained (hpunctual s hs)
    rw [hdrained]
  · exact h.valid s hs
  · exact fun time => ⟨(h.ticks s hs time).pos, (h.ticks s hs time).mono, (h.ticks s hs time).passes⟩
  · exact hn

/-- **A run** without an error. -/
theorem stepAll_steady (hP : Tracker.Upheld P) (hsource : Sensor.Decides γ) {r : Run γ ℝ} {now : ℝ}
    {times : List ℝ} (h : r.Steady P now) (hchain : (now :: times).IsChain (· ≤ ·)) :
    ∃ r', r.stepAll times = (.ok (), r') ∧
      r'.Steady P ((now :: times).getLast (List.cons_ne_nil _ _)) := by
  induction times generalizing r now with
  | nil => exact ⟨r, rfl, h⟩
  | cons now' rest ih =>
    obtain ⟨hle, hrest⟩ := List.isChain_cons_cons.1 hchain
    obtain ⟨r₁, hstep, hsteady⟩ := step_steady hP hsource h hle
    obtain ⟨r', hall, hlast⟩ := ih hsteady hrest
    refine ⟨r', ?_, hlast⟩
    rw [stepAll, hstep]
    exact hall

end Steady

/-! ### Scenarios -/

section Scenario

variable {γ : Type} {P : Nat → Tracker ℝ → Prop}

theorem cons_stepTimes (rate : ℝ) (count : Nat) :
    0 :: stepTimes rate 1 count = stepTimes rate 0 count ++ [(count : ℝ) / rate] := by
  have hzero : (0 : ℝ) :: stepTimes rate 1 count = stepTimes rate 0 (count + 1) := by
    rw [stepTimes, stepTimes, List.range'_succ, List.map_cons, Nat.cast_zero, zero_div]
  rw [hzero, stepTimes, List.range'_1_concat, List.map_append, Nat.zero_add]
  rfl

theorem isChain_stepTimes {rate : ℝ} (hrate : 0 < rate) (count : Nat) :
    (0 :: stepTimes rate 1 count).IsChain (· ≤ ·) := by
  have hmono : ∀ {j k : Nat}, j < k → (j : ℝ) / rate ≤ k / rate := by
    intro j k hjk
    gcongr
  rw [cons_stepTimes]
  refine List.Pairwise.isChain (List.pairwise_append.2
    ⟨List.pairwise_map.2 ?_, List.pairwise_singleton _ _, ?_⟩)
  · exact (List.pairwise_lt_range' (s := 0) (n := count)).imp hmono
  · intro a ha b hb
    obtain ⟨k, hk, rfl⟩ := List.mem_map.1 ha
    obtain ⟨-, hlt⟩ := List.mem_range'_1.1 hk
    rw [List.mem_singleton.1 hb]
    exact hmono (by omega)

theorem getLast_stepTimes (rate : ℝ) (count : Nat) :
    (0 :: stepTimes rate 1 count).getLast (List.cons_ne_nil _ _) = count / rate := by
  simp only [cons_stepTimes, List.getLast_append_singleton]

theorem initial_steady {c : Scenario ℝ} (hc : c.Valid) (source : γ)
    (h : P 0 (initial c source).tracker) : (initial c source).Steady P 0 := by
  have hsensors : ∀ s ∈ (initial c source).sensors, s.model.Valid ∧
      (∀ time, s.schedule.Ticks time) ∧ s.schedule.Reaches 0 s.schedule.fired := by
    intro s hs
    obtain ⟨config, index, hconfig, rfl⟩ := mem_sensors_initial.1 hs
    have hvalid := hc.sensors config (List.mem_of_getElem? hconfig)
    have hreaches := Schedule.reaches_floor hvalid.rate_pos 0
    rw [mul_zero, Nat.floor_zero] at hreaches
    exact ⟨hvalid.model, fun time => Schedule.ticks_ofRate hvalid.rate_pos time, hreaches⟩
  exact ⟨h, rfl, fun s hs => (hsensors s hs).1, fun s hs => (hsensors s hs).2.1,
    fun s hs => (hsensors s hs).2.2⟩

theorem zipIdx_sensors (c : Scenario ℝ) (source : γ) : (initial c source).sensors.zipIdx =
    c.sensors.zipIdx.map fun p => (p.1.sensor p.2, p.2) := by
  apply List.ext_getElem?
  intro i
  simp only [initial, List.getElem?_zipIdx, List.getElem?_map, Option.map_map, Nat.zero_add]
  rfl

/-- The firings of the sensors of a scenario up to a time. -/
noncomputable def allFirings (c : Scenario ℝ) (last : ℝ) : List (ℝ × Nat) :=
  c.sensors.zipIdx.flatMap fun p =>
    (List.range' 1 ⌊p.1.rate * last⌋₊).map fun k : Nat => ((k : ℝ) / p.1.rate, p.2)

theorem places_due_initial {c : Scenario ℝ} (hc : c.Valid) (source : γ) (last : ℝ) :
    ((Firing.due last (initial c source).sensors).map Firing.place).Perm (allFirings c last) := by
  refine (Firing.place_due_perm _ _).trans (.of_eq ?_)
  rw [zipIdx_sensors, List.flatMap_map, allFirings]
  refine List.flatMap_congr fun p hp => ?_
  have hvalid := hc.sensors p.1 (List.mem_of_getElem? (List.mem_zipIdx_iff_getElem?.1 hp))
  have hdue := Schedule.due_of_fresh (Schedule.reaches_floor hvalid.rate_pos last) rfl
  simp only [SensorConfig.sensor, hdue, List.map_map, Function.comp_def, Schedule.firing_ofRate]

theorem length_allFirings (c : Scenario ℝ) (last : ℝ) :
    (allFirings c last).length = (c.sensors.map fun s => ⌊s.rate * last⌋₊).sum := by
  have hsensors : c.sensors.zipIdx.map (fun p => ⌊p.1.rate * last⌋₊) =
      c.sensors.map fun s => ⌊s.rate * last⌋₊ := by
    rw [show (fun p : SensorConfig ℝ × Nat => ⌊p.1.rate * last⌋₊) =
      (fun s : SensorConfig ℝ => ⌊s.rate * last⌋₊) ∘ Prod.fst from rfl, ← List.map_map,
      List.zipIdx_map_fst]
  simp only [allFirings, List.length_flatMap, List.length_map, List.length_range', hsensors]

end Scenario

section Complete

variable {γ : Type} [NoiseSource γ ℝ] [Diagonalization] {P : Nat → Tracker ℝ → Prop}

/-- **A checked scenario runs to its end**, and whatever is upheld still holds there. -/
theorem steps_initial (hP : Tracker.Upheld P) (hsource : Sensor.Decides γ) {c : Scenario ℝ}
    (hc : c.Valid) {source : γ} (h : P 0 (initial c source).tracker) (count : Nat) :
    ∃ r', (initial c source).opened.steps 1 count = (.ok (), r') ∧
      r'.Steady P (count / c.run.stepRate) := by
  have hsteady := initial_steady hc source h
  have hopened : (initial c source).opened.Steady P 0 :=
    ⟨hsteady.upheld, hsteady.timestamp, hsteady.valid, hsteady.ticks, hsteady.fired⟩
  obtain ⟨r', hall, hlast⟩ := stepAll_steady hP hsource hopened
    (isChain_stepTimes hc.stepRate_pos count)
  rw [getLast_stepTimes] at hlast
  exact ⟨r', (steps_eq _ 1 count).trans hall, hlast⟩

theorem complete_of_steps {r r' : Run γ ℝ}
    (h : r.opened.steps 1 (stepCount r.scenario) = (.ok (), r')) :
    r.complete = (.ok (r'.summary (stepCount r.scenario)), { r' with
      journal := r'.journal.push (.completed (r'.summary (stepCount r.scenario))) }) := by
  rw [opened] at h
  simp only [complete, h]

theorem places_log_initial {c : Scenario ℝ} (hc : c.Valid) {source : γ} {r' : Run γ ℝ}
    {times : List ℝ} (h : (initial c source).opened.stepAll times = (.ok (), r'))
    (hchain : (0 :: times).IsChain (· ≤ ·)) :
    (((initial c source).opened.log times).map Sighting.place).Perm
      (allFirings c ((0 :: times).getLast (List.cons_ne_nil _ _))) := by
  cases times with
  | nil =>
    have hnone : allFirings c 0 = [] := by
      simp only [allFirings, mul_zero, Nat.floor_zero, List.range'_zero, List.map_nil,
        List.flatMap_eq_nil_iff, implies_true]
    rw [List.getLast_singleton, hnone]
    exact .nil
  | cons now rest =>
    obtain ⟨hle, hrest⟩ := List.isChain_cons_cons.1 hchain
    have hsteady := initial_steady (P := fun _ _ => True) hc source trivial
    rw [List.getLast_cons_cons, places_log h (hsteady.punctual hle) hrest
      fun s hs => hsteady.ticks s hs _]
    exact places_due_initial hc source _

/-- **A scenario that passes its check runs to its end**, whatever the random source yields.  It takes
as many steps as there are in the duration, to the nearest, and after the `k`-th the tracker is at the
time `k / stepRate`.  Every firing of a sensor up to the last step is asked once, and every message that
is sent is given to the tracker once, in the same order.  Each firing is counted as a measurement or as
dropped, and each measurement as applied, as an outlier or as invalid. -/
theorem completes {c : Scenario ℝ} (hc : c.validate = .ok ()) (hsource : Sensor.Decides γ)
    (source : γ) : ∃ r summary last, create c source = .ok r ∧ r.complete = (.ok summary, last) ∧
      (summary.steps : ℤ) = round (c.run.duration * c.run.stepRate) ∧
      summary.errors.samples = summary.steps ∧
      (∀ k ≤ summary.steps, ∃ r', r.opened.steps 1 k = (.ok (), r') ∧
        r'.tracker.timestamp = k / c.run.stepRate) ∧
      summary.applied + summary.rejectedOutliers + summary.rejectedInvalid = summary.measurements ∧
      summary.measurements + summary.dropped =
        (c.sensors.map fun s => ⌊s.rate * summary.steps / c.run.stepRate⌋₊).sum ∧
      let log := r.opened.log (stepTimes c.run.stepRate 1 summary.steps)
      (log.map Sighting.place).Perm (allFirings c (summary.steps / c.run.stepRate)) ∧
      ∃ inputs, last.tracker = (r.tracker.processAll inputs).2 ∧
        inputs.filterMap Input.message? = log.filterMap Sighting.message? := by
  have hvalid := Scenario.validate_eq_ok_iff.1 hc
  have hstart : Tracker.Accounts 0 (initial c source).tracker :=
    ⟨⟨Exact.isFinite_eq _, _, rfl⟩, rfl⟩
  have hsteps := steps_initial Tracker.upheld_accounts hsource hvalid hstart
  obtain ⟨r', hall, hsteady⟩ := hsteps (stepCount c)
  have hstepAll := (steps_eq _ 1 (stepCount c)).symm.trans hall
  obtain ⟨⟨inputs, hwent⟩, hsamples⟩ := stepAll_went hstepAll
  have hplaces := places_log_initial hvalid hstepAll (isChain_stepTimes hvalid.stepRate_pos _)
  rw [getLast_stepTimes] at hplaces
  refine ⟨_, _, _, create_of_valid hc source, complete_of_steps hall, ?_, ?_, ?_, ?_, ?_, hplaces,
    inputs, hwent.tracker, hwent.messages⟩
  · have hpos := mul_pos hvalid.duration_pos hvalid.stepRate_pos
    have hround : 0 ≤ round (c.run.duration * c.run.stepRate) := by
      rw [round_eq]
      positivity
    exact Int.toNat_of_nonneg hround
  · refine hsamples.trans ?_
    rw [stepTimes, List.length_map, List.length_range']
    exact Nat.zero_add _
  · intro k _
    obtain ⟨r', hall, hsteady⟩ := hsteps k
    exact ⟨r', hall, hsteady.timestamp⟩
  · exact hsteady.upheld.total
  · have hlength := hplaces.length_eq
    rw [List.length_map, length_allFirings] at hlength
    refine hwent.measurements_add_dropped.trans ?_
    simp only [mul_div_assoc]
    exact (Nat.zero_add _).trans hlength

end Complete

/-- Ten seconds of a camera at 30 Hz that loses every other frame, and of a gyroscope at 200 Hz. -/
theorem completes_patchy :
    ∃ (r : Run ExactStream ℝ) (summary : RunSummary ℝ) (last : Run ExactStream ℝ),
      create Scenario.patchy ⟨RandomStream.seeded 7⟩ = .ok r ∧ r.complete = (.ok summary, last) ∧
      summary.steps = 1000 ∧ summary.errors.samples = 1000 ∧
      summary.measurements + summary.dropped = 2300 := by
  obtain ⟨r, summary, last, hcreate, hcomplete, hsteps, hsamples, -, -, htotal, -⟩ :=
    completes (Scenario.validate_eq_ok_iff.2 Scenario.valid_patchy) ExactStream.decides
      ⟨RandomStream.seeded 7⟩
  have hcount : summary.steps = 1000 := by
    have hround : round (Scenario.patchy.run.duration * Scenario.patchy.run.stepRate) = 1000 := by
      norm_num [Scenario.patchy, Scenario.standard, Scenario.standardRun]
    exact_mod_cast hsteps.trans hround
  refine ⟨r, summary, last, hcreate, hcomplete, hcount, hsamples.trans hcount, htotal.trans ?_⟩
  rw [hcount]
  norm_num [Scenario.patchy, Scenario.standard, Scenario.standardRun, SensorConfig.rate]

end Run

end PoseFilter
