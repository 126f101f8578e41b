import PoseFilter.Proofs.Firings
import PoseFilter.Proofs.Transitions

/-!
# What a run does

A run mixes four things: schedules hand out firings, sensors draw from the random source, the tracker
takes inputs, and errors are recorded.  This file takes them apart again, over any type of numbers.
`Run.log` writes down what the sensors of a run are asked, and what they see.  If a run goes on without
an error (`Run.stepAll_went`),

* what the sensors are asked is what the schedules hand out (`Firing.along`), and what they see depends
  on that and the random source alone (`Observed`, `Observed.unique`): the tracker has no part in it;
* the tracker is given the messages that were seen, in this order, and the times of the steps;
* each firing is counted once, as a measurement or as dropped.
-/

namespace PoseFilter

/-- The message of an input, if it is one. -/
def Input.message? {α : Type} : Input α → Option (Message α)
  | timeStep _ => none
  | measurement message => some message

/-- One sensor asked at one time. -/
structure Sighting (γ α : Type) where
  time : α
  /-- The place of the sensor in the scenario. -/
  index : Nat
  /-- The random source before the sensor draws from it. -/
  source : γ
  /-- What the sensor sees, and the random source afterwards. -/
  seen : Except (SimulationError α) (Option (Message α) × γ)

namespace Sighting

variable {γ α : Type}

/-- When and where. -/
def place (s : Sighting γ α) : α × Nat := (s.time, s.index)

/-- The message that is sent, if any. -/
def message? (s : Sighting γ α) : Option (Message α) := s.seen.toOption.bind (·.1)

end Sighting

/-! ### Sensors and chance -/

section Observe

variable {γ α : Type} [Scalar α] [NoiseSource γ α]

/-- From a random source, firings lead to sightings and to the source afterwards. -/
inductive Observed (body : BodyHandle) (truth : Truth α) :
    γ → List (Firing α) → List (Sighting γ α) → γ → Prop
  | nil (source : γ) : Observed body truth source [] [] source
  | cons {f : Firing α} {rest : List (Firing α)} {log : List (Sighting γ α)} {source after last : γ}
      {message : Option (Message α)} :
      f.sensor.observe body f.time (truth.atTime f.time) source = .ok (message, after) →
      Observed body truth after rest log last →
      Observed body truth source (f :: rest)
        (⟨f.time, f.index, source, .ok (message, after)⟩ :: log) last

namespace Observed

variable {body : BodyHandle} {truth : Truth α} {source mid last last' : γ}
  {firings firings' : List (Firing α)} {log log' : List (Sighting γ α)}

theorem append (h : Observed body truth source firings log mid)
    (h' : Observed body truth mid firings' log' last) :
    Observed body truth source (firings ++ firings') (log ++ log') last := by
  induction h with
  | nil source => exact h'
  | cons hseen _ ih => exact .cons hseen (ih h')

/-- **Sightings are determined** by the firings and the source. -/
theorem unique (h : Observed body truth source firings log last)
    (h' : Observed body truth source firings log' last') : log = log' ∧ last = last' := by
  induction h generalizing log' with
  | nil source =>
    cases h'
    exact ⟨rfl, rfl⟩
  | cons hseen _ ih =>
    cases h' with
    | cons hseen' hrest' =>
      cases Except.ok.inj (hseen.symm.trans hseen')
      obtain ⟨rfl, rfl⟩ := ih hrest'
      exact ⟨rfl, rfl⟩

theorem rewound (h : Observed body truth source firings log last) :
    Observed body truth source (firings.map Firing.rewound) log last := by
  induction h with
  | nil source => exact .nil source
  | @cons f rest log source after last message hseen _ ih =>
    exact Observed.cons (f := f.rewound) hseen ih

theorem places (h : Observed body truth source firings log last) :
    log.map Sighting.place = firings.map Firing.place := by
  induction h with
  | nil source => rfl
  | cons _ _ ih =>
    rw [List.map_cons, List.map_cons, ih]
    rfl

end Observed

end Observe

/-! ### Steps of a run -/

namespace Run

variable {γ α : Type} [Spectral α] [NoiseSource γ α]

/-- What the sensor of a firing sees. -/
def seen (r : Run γ α) (f : Firing α) : Except (SimulationError α) (Option (Message α) × γ) :=
  f.sensor.observe r.tracker.handle f.time ((Truth.ofBody r.scenario.body).atTime f.time) r.source

/-- What the sensors are asked in a list of firings, up to the first error. -/
def sightings (r : Run γ α) : List (Firing α) → List (Sighting γ α)
  | [] => []
  | f :: rest =>
    ⟨f.time, f.index, r.source, r.seen f⟩ ::
      match r.fire f with
      | (.ok (), r) => r.sightings rest
      | (.error _, _) => []

/-- Steps at a list of times, up to the first error. -/
def stepAll (r : Run γ α) : List α → Except (SimulationError α) Unit × Run γ α
  | [] => (.ok (), r)
  | now :: rest =>
    match r.step now with
    | (.error e, r) => (.error e, r)
    | (.ok (), r) => r.stepAll rest

/-- What the sensors are asked in steps at a list of times, up to the first error. -/
def log (r : Run γ α) : List α → List (Sighting γ α)
  | [] => []
  | now :: rest =>
    { r with sensors := drained now r.sensors }.sightings (Firing.due now r.sensors) ++
      match r.step now with
      | (.ok (), r) => r.log rest
      | (.error _, _) => []

/-- What lies between two states of a run, if there is no error: the firings, what was seen, and the
inputs of the tracker. -/
structure Went (r : Run γ α) (firings : List (Firing α)) (log : List (Sighting γ α))
    (inputs : List (Input α)) (r' : Run γ α) : Prop where
  scenario : r'.scenario = r.scenario
  handle : r'.tracker.handle = r.tracker.handle
  observed : Observed r.tracker.handle (Truth.ofBody r.scenario.body) r.source firings log r'.source
  tracker : r'.tracker = (r.tracker.processAll inputs).2
  messages : inputs.filterMap Input.message? = log.filterMap Sighting.message?
  measurements : r'.measurements = r.measurements + log.countP (·.message?.isSome)
  dropped : r'.dropped = r.dropped + log.countP (·.message?.isNone)

variable {r r₁ r' : Run γ α} {firings firings' : List (Firing α)} {log log' : List (Sighting γ α)}
  {inputs inputs' : List (Input α)}

theorem Went.refl (r : Run γ α) : r.Went [] [] [] r := ⟨rfl, rfl, .nil _, rfl, rfl, rfl, rfl⟩

theorem Went.trans (h : r.Went firings log inputs r₁) (h' : r₁.Went firings' log' inputs' r') :
    r.Went (firings ++ firings') (log ++ log') (inputs ++ inputs') r' := by
  have hobserved := h'.observed
  rw [h.scenario, h.handle] at hobserved
  refine ⟨h'.scenario.trans h.scenario, h'.handle.trans h.handle, h.observed.append hobserved, ?_, ?_,
    ?_, ?_⟩
  · rw [h'.tracker, h.tracker, Tracker.processAll_append]
  · rw [List.filterMap_append, List.filterMap_append, h.messages, h'.messages]
  · rw [h'.measurements, h.measurements, List.countP_append, Nat.add_assoc]
  · rw [h'.dropped, h.dropped, List.countP_append, Nat.add_assoc]

/-! ### One input, one firing -/

omit [NoiseSource γ α] in
/-- The run after an input of its tracker. -/
def given (r : Run γ α) (input : Input α) : Run γ α :=
  { r with tracker := (r.tracker.process input).tracker }.tell (r.tracker.process input).events

omit [NoiseSource γ α] in
theorem give_of_ok {input : Input α} {outcome : Outcome α}
    (h : (r.tracker.process input).result = .ok outcome) : r.give input = (.ok (), r.given input) := by
  simp only [give, h]
  rfl

omit [NoiseSource γ α] in
theorem give_eq_ok {input : Input α} (h : r.give input = (.ok (), r')) : r' = r.given input := by
  cases hresult : (r.tracker.process input).result with
  | ok outcome =>
    rw [give_of_ok hresult] at h
    cases h
    rfl
  | error e =>
    simp only [give, hresult] at h
    cases h

/-- The run after a firing that was seen, as far as the sensor is concerned. -/
def taken (r : Run γ α) (source : γ) : Option (Message α) → Run γ α
  | none => { r with source, dropped := r.dropped + 1 }
  | some _ => { r with source, measurements := r.measurements + 1 }

theorem fire_of_error {f : Firing α} {e : SimulationError α} (h : r.seen f = .error e) :
    r.fire f = (.error e, r) := by
  simp only [fire, show Sensor.observe _ _ _ _ _ = _ from h]

theorem fire_of_none {f : Firing α} {source : γ} (h : r.seen f = .ok (none, source)) :
    r.fire f = (.ok (), r.taken source none) := by
  simp only [fire, show Sensor.observe _ _ _ _ _ = _ from h]
  rfl

theorem fire_of_some {f : Firing α} {message : Message α} {source : γ}
    (h : r.seen f = .ok (some message, source)) :
    r.fire f = (r.taken source (some message)).give (.measurement message) := by
  simp only [fire, show Sensor.observe _ _ _ _ _ = _ from h]
  rfl

theorem Went.lost {f : Firing α} {source : γ} (h : r.seen f = .ok (none, source)) :
    r.Went [f] [⟨f.time, f.index, r.source, r.seen f⟩] [] (r.taken source none) := by
  refine ⟨rfl, rfl, ?_, rfl, ?_, ?_, ?_⟩ <;> rw [h]
  · exact .cons h (.nil _)
  · rfl
  · rfl
  · rfl

theorem Went.fed {f : Firing α} {message : Message α} {source : γ}
    (h : r.seen f = .ok (some message, source)) :
    r.Went [f] [⟨f.time, f.index, r.source, r.seen f⟩] [.measurement message]
      ((r.taken source (some message)).given (.measurement message)) := by
  refine ⟨rfl, Tracker.handle_process _ _, ?_, rfl, ?_, ?_, ?_⟩ <;> rw [h]
  · exact .cons h (.nil _)
  · rfl
  · rfl
  · rfl

omit [NoiseSource γ α] in
theorem sensors_give (r : Run γ α) (input : Input α) : (r.give input).2.sensors = r.sensors := by
  simp only [give]
  split <;> rfl

theorem sensors_fire (r : Run γ α) (f : Firing α) : (r.fire f).2.sensors = r.sensors := by
  simp only [fire]
  split
  · rfl
  · rfl
  · exact sensors_give _ _

theorem sensors_fireAll (r : Run γ α) (firings : List (Firing α)) :
    (r.fireAll firings).2.sensors = r.sensors := by
  induction firings generalizing r with
  | nil => rfl
  | cons f rest ih =>
    have hfirst := sensors_fire r f
    rw [fireAll]
    rcases hfire : r.fire f with ⟨result, r₁⟩
    rw [hfire] at hfirst
    cases result with
    | error e => exact hfirst
    | ok u => exact (ih r₁).trans hfirst

/-- **One firing** without an error. -/
theorem fire_went {f : Firing α} (h : r.fire f = (.ok (), r')) :
    (∃ inputs, r.Went [f] [⟨f.time, f.index, r.source, r.seen f⟩] inputs r') ∧
      r'.stats = r.stats := by
  cases hseen : r.seen f with
  | error e =>
    rw [fire_of_error hseen] at h
    cases h
  | ok answer =>
    obtain ⟨message, source⟩ := answer
    rw [← hseen]
    cases message with
    | none =>
      rw [fire_of_none hseen] at h
      cases h
      exact ⟨⟨_, .lost hseen⟩, rfl⟩
    | some message =>
      rw [fire_of_some hseen] at h
      cases give_eq_ok h
      exact ⟨⟨_, .fed hseen⟩, rfl⟩

/-- **A list of firings** without an error. -/
theorem fireAll_went (h : r.fireAll firings = (.ok (), r')) :
    (∃ inputs, r.Went firings (r.sightings firings) inputs r') ∧ r'.stats = r.stats := by
  induction firings generalizing r with
  | nil =>
    cases h
    exact ⟨⟨[], .refl _⟩, rfl⟩
  | cons f rest ih =>
    rw [fireAll] at h
    rw [sightings]
    rcases hfire : r.fire f with ⟨result, r₁⟩
    rw [hfire] at h
    cases result with
    | error e => cases h
    | ok u =>
      obtain ⟨⟨inputs, hfirst⟩, hstats⟩ := fire_went hfire
      obtain ⟨⟨inputs', hrest⟩, hstats'⟩ := ih h
      exact ⟨⟨inputs ++ inputs', hfirst.trans hrest⟩, hstats'.trans hstats⟩

/-! ### Steps -/

omit [NoiseSource γ α] in
/-- The error of a run at a time. -/
def errorAt (r : Run γ α) (now : α) : PoseError α :=
  PoseError.between ((Truth.ofBody r.scenario.body).atTime now).pose r.tracker.state.pose

omit [NoiseSource γ α] in
theorem score_eq (r : Run γ α) (now : α) : ∃ nextReport journal,
    r.score now = { r with stats := r.stats.record (r.errorAt now), nextReport, journal } := by
  unfold score
  dsimp only
  split
  · exact ⟨_, _, rfl⟩
  · exact ⟨_, _, rfl⟩

theorem Went.timeStep (r : Run γ α) (now : α) :
    r.Went [] [] [.timeStep now] (r.given (.timeStep now)) :=
  ⟨rfl, Tracker.handle_process _ _, .nil _, rfl, rfl, rfl, rfl⟩

theorem sensors_step (r : Run γ α) (now : α) : (r.step now).2.sensors = drained now r.sensors := by
  have hfirst := sensors_fireAll { r with sensors := drained now r.sensors } (Firing.due now r.sensors)
  rw [step]
  rcases hfire : { r with sensors := drained now r.sensors }.fireAll (Firing.due now r.sensors) with
    ⟨result, r₁⟩
  rw [hfire] at hfirst ⊢
  cases result with
  | error e => exact hfirst
  | ok u =>
    have hsecond := sensors_give r₁ (.timeStep now)
    rcases hgive : r₁.give (.timeStep now) with ⟨result, r₂⟩
    rw [hgive] at hsecond
    simp only [hgive]
    cases result with
    | error e => exact hsecond.trans hfirst
    | ok u =>
      have hscore : (r₂.score now).sensors = r₂.sensors := by
        obtain ⟨nextReport, journal, hscore⟩ := score_eq r₂ now
        rw [hscore]
      exact hscore.trans (hsecond.trans hfirst)

/-- **One step** without an error. -/
theorem step_went {now : α} (h : r.step now = (.ok (), r')) :
    (∃ inputs, r.Went (Firing.due now r.sensors)
      ({ r with sensors := drained now r.sensors }.sightings (Firing.due now r.sensors)) inputs r') ∧
      r'.stats = r.stats.record (r'.errorAt now) := by
  rw [step] at h
  rcases hfire : { r with sensors := drained now r.sensors }.fireAll (Firing.due now r.sensors) with
    ⟨result, r₁⟩
  rw [hfire] at h
  cases result with
  | error e => cases h
  | ok u =>
    rcases hgive : r₁.give (.timeStep now) with ⟨result, r₂⟩
    simp only [hgive] at h
    cases result with
    | error e => cases h
    | ok u =>
      obtain ⟨⟨inputs, hfired⟩, hstats⟩ := fireAll_went hfire
      cases give_eq_ok hgive
      cases h
      obtain ⟨nextReport, journal, hscore⟩ := score_eq (r₁.given (.timeStep now)) now
      have hwent := hfired.trans (.timeStep r₁ now)
      rw [List.append_nil, List.append_nil] at hwent
      rw [hscore]
      refine ⟨⟨inputs ++ [.timeStep now], ?_⟩, ?_⟩
      · exact ⟨hwent.scenario, hwent.handle, hwent.observed, hwent.tracker, hwent.messages,
          hwent.measurements, hwent.dropped⟩
      · exact congrArg (fun stats => stats.record ((r₁.given (.timeStep now)).errorAt now)) hstats

/-- **A run** without an error. -/
theorem stepAll_went {times : List α} (h : r.stepAll times = (.ok (), r')) :
    (∃ inputs, r.Went (Firing.along r.sensors times) (r.log times) inputs r') ∧
      r'.stats.samples = r.stats.samples + times.length := by
  induction times generalizing r with
  | nil =>
    cases h
    exact ⟨⟨[], .refl _⟩, rfl⟩
  | cons now rest ih =>
    rw [stepAll] at h
    rw [Run.log, Firing.along]
    rcases hstep : r.step now with ⟨result, r₁⟩
    rw [hstep] at h
    cases result with
    | error e => cases h
    | ok u =>
      obtain ⟨⟨inputs, hfirst⟩, hstats⟩ := step_went hstep
      have hsensors : r₁.sensors = drained now r.sensors := by rw [← sensors_step r now, hstep]
      obtain ⟨⟨inputs', hrest⟩, hsamples'⟩ := ih h
      rw [hsensors] at hrest
      refine ⟨⟨inputs ++ inputs', hfirst.trans hrest⟩, ?_⟩
      have hsamples : r₁.stats.samples = r.stats.samples + 1 := congrArg (·.samples) hstats
      rw [hsamples', hsamples, List.length_cons]
      omega

/-- **What the sensors of a run are asked** is what a single step to the last time would hand out. -/
theorem places_log [Chronology α] {now : α} {rest : List α}
    (h : r.stepAll (now :: rest) = (.ok (), r')) (hsensors : ∀ s ∈ r.sensors, s.Punctual now)
    (hchain : (now :: rest).IsChain (· ≤ ·))
    (hticks : ∀ s ∈ r.sensors, s.schedule.Ticks ((now :: rest).getLast (List.cons_ne_nil _ _))) :
    (r.log (now :: rest)).map Sighting.place =
      (Firing.due ((now :: rest).getLast (List.cons_ne_nil _ _)) r.sensors).map Firing.place := by
  obtain ⟨⟨inputs, hwent⟩, -⟩ := stepAll_went h
  rw [hwent.observed.places, ← Firing.map_place_rewound, Firing.along_eq hsensors hchain hticks,
    Firing.map_place_rewound]

theorem Went.measurements_add_dropped (h : r.Went firings log inputs r') :
    r'.measurements + r'.dropped = r.measurements + r.dropped + log.length := by
  have hcount := List.length_eq_countP_add_countP (fun s : Sighting γ α => s.message?.isSome) (l := log)
  have hnone : log.countP (fun s => !s.message?.isSome) = log.countP (·.message?.isNone) :=
    List.countP_congr fun s _ => by cases s.message? <;> rfl
  simp only [Bool.not_eq_true, Bool.decide_eq_false] at hcount
  rw [h.measurements, h.dropped, hcount, hnone]
  omega

/-! ### Steps at a rate -/

omit [NoiseSource γ α] in
/-- A run whose steps begin. -/
def opened (r : Run γ α) : Run γ α :=
  { r with journal := r.journal.push (.started (stepCount r.scenario) r.scenario.run.stepRate) }

/-- The times of the steps at a rate, from the given one. -/
def stepTimes {α : Type} [Scalar α] (rate : α) (first count : Nat) : List α :=
  (List.range' first count).map fun k : Nat => (k : α) / rate

theorem steps_eq (r : Run γ α) (first count : Nat) :
    r.steps first count = r.stepAll (stepTimes r.scenario.run.stepRate first count) := by
  induction count generalizing r first with
  | zero => rfl
  | succ count ih =>
    rw [steps, stepTimes, List.range'_succ, List.map_cons, stepAll]
    rcases hstep : r.step (first / r.scenario.run.stepRate) with ⟨result, r₁⟩
    cases result with
    | error e => rfl
    | ok u =>
      obtain ⟨⟨inputs, hwent⟩, -⟩ := step_went hstep
      simp only [ih, hwent.scenario]
      rfl

end Run

end PoseFilter
