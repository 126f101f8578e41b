import PoseFilter.Proofs.Progress

/-!
# Common random numbers

All sensors of a run draw from one random source, so a draw that depended on anything but the sensors
would shift all that follow.  None does: a firing falls apart into what is drawn, which depends on the
kind of the sensor and its chance of losing a frame alone (`SensorConfig.draw`), and what is made of it,
which draws nothing (`SensorConfig.report`).  Hence two scenarios that differ in what their cameras
report, in the noise, in the body and in the tracker can be compared number by number.

* `Sensor.observe_eq` : a sensor draws, and then reports.
* `Drawn` : what is drawn at one firing after another, and `Drawn.unique`.
* `Firing.places_along` : when and where sensors fire depends on their schedules alone.
* `Run.tells` : a run that goes on without an error is told by what was drawn.
* `Run.common_random_numbers` : two runs are told by the same draws.
-/

namespace PoseFilter

/-! ### One firing -/

/-- What a sensor draws when it fires. -/
inductive Draw (α : Type)
  /-- The frame is lost. -/
  | lost
  /-- A camera's frame: the standard normal numbers of the position and of the rotation. -/
  | frame (position rotation : Vec3 α)
  /-- A gyroscope's reading: the standard normal numbers of the rate. -/
  | rate (z : Vec3 α)

/-- Whether nothing is to be reported. -/
def Draw.isLost {α : Type} : Draw α → Bool
  | lost => true
  | frame _ _ => false
  | rate _ => false

section Firing

variable {γ α : Type} [Scalar α] [NoiseSource γ α]

namespace Sensor

/-- Three standard normal numbers. -/
def gaussian3 (source : γ) : Vec3 α × γ :=
  let (x, source) := NoiseSource.gaussian source
  let (y, source) := NoiseSource.gaussian source
  let (z, source) := NoiseSource.gaussian source
  (⟨x, y, z⟩, source)

/-- Standard normal numbers scaled by a standard deviation, about the mean zero. -/
def noise (deviation : α) (z : Vec3 α) : Vec3 α :=
  ⟨0 + deviation * z.x, 0 + deviation * z.y, 0 + deviation * z.z⟩

theorem sample3_eq (deviation : α) (source : γ) :
    sample3 deviation source = (noise deviation (gaussian3 source).1, (gaussian3 source).2) := rfl

end Sensor

namespace SensorConfig

/-- What a sensor of a scenario draws from a random source. -/
def draw (s : SensorConfig α) (source : γ) : Except (SimulationError α) (Draw α × γ) := do
  match s with
  | camera c =>
    let (lost, source) ← Sensor.loses c.dropout source
    if lost then return (.lost, source)
    let (position, source) := Sensor.gaussian3 source
    let (rotation, source) := Sensor.gaussian3 source
    return (.frame position rotation, source)
  | gyro _ =>
    let (z, source) := Sensor.gaussian3 source
    return (.rate z, source)

/-- What a sensor of a scenario makes of the truth and of a draw of its kind. -/
def report (s : SensorConfig α) (truth : TrueState α) (d : Draw α) : Option (Reading α) :=
  match s, d with
  | camera c, .frame z w =>
    let turn := Scalar.toRadians c.orientationNoiseDeg
    let position := truth.pose.position + Sensor.noise c.positionNoise z
    let orientation := Rotation.ofVector (Sensor.noise turn w) * truth.pose.orientation
    match c.output with
    | .orientation => some (.orientation orientation (Mat.scalar 3 (turn * turn)))
    | .position => some (.position position (Mat.scalar 3 (c.positionNoise * c.positionNoise)))
    | .pose =>
      some (.pose ⟨position, orientation⟩
        (Sensor.poseNoise (c.positionNoise * c.positionNoise) (turn * turn)))
  | gyro g, .rate z =>
    let deviation := Scalar.toRadians g.noiseDeg
    some (.angularVelocity (truth.angularVelocity + Sensor.noise deviation z)
      (Mat.scalar 3 (deviation * deviation)))
  | _, _ => none

/-- Sensors of one kind, at one rate and with one chance of losing a frame.  Their names, what a camera
reports and the noise may differ. -/
inductive DrawsLike : SensorConfig α → SensorConfig α → Prop
  | camera {c c' : CameraConfig α} : c'.rate = c.rate → c'.dropout = c.dropout →
      DrawsLike (.camera c) (.camera c')
  | gyro {g g' : GyroConfig α} : g'.rate = g.rate → DrawsLike (.gyro g) (.gyro g')

variable {s s' : SensorConfig α}

omit [Scalar α] in
theorem DrawsLike.rate (h : s.DrawsLike s') : s'.rate = s.rate := by
  cases h with
  | camera hrate _ => exact hrate
  | gyro hrate => exact hrate

omit [Scalar α] in
theorem rates_eq {sensors sensors' : List (SensorConfig α)}
    (h : List.Forall₂ DrawsLike sensors sensors') :
    sensors'.map SensorConfig.rate = sensors.map SensorConfig.rate := by
  induction h with
  | nil => rfl
  | cons hfirst _ ih => rw [List.map_cons, List.map_cons, hfirst.rate, ih]

/-- **What is drawn** depends on the kind and the chance of losing a frame. -/
theorem DrawsLike.draw (h : s.DrawsLike s') (source : γ) : s'.draw source = s.draw source := by
  cases h with
  | camera _ hdropout => simp only [SensorConfig.draw, hdropout]
  | gyro _ => rfl

theorem isSome_report {source after : γ} {d : Draw α} (h : s.draw source = .ok (d, after))
    (truth : TrueState α) : (s.report truth d).isSome = !d.isLost := by
  cases s with
  | gyro g =>
    cases h
    rfl
  | camera c =>
    simp only [SensorConfig.draw] at h
    cases hloses : Sensor.loses c.dropout source with
    | error e =>
      rw [hloses] at h
      cases h
    | ok answer =>
      obtain ⟨lost, source'⟩ := answer
      rw [hloses] at h
      cases lost with
      | true =>
        cases h
        rfl
      | false =>
        cases h
        simp only [report]
        cases c.output <;> rfl

end SensorConfig

namespace Sensor

theorem look_eq (s : SensorConfig α) (truth : TrueState α) (source : γ) :
    look s.model truth source = (s.draw source).map fun p => (s.report truth p.1, p.2) := by
  cases s with
  | gyro g =>
    simp only [look, SensorConfig.model, sample3_eq]
    rfl
  | camera c =>
    simp only [look, SensorConfig.model, SensorConfig.draw, sample3_eq]
    cases loses c.dropout source with
    | error e => rfl
    | ok answer =>
      obtain ⟨lost, after⟩ := answer
      cases lost with
      | true => rfl
      | false =>
        obtain ⟨name, rate, output, positionNoise, orientationNoiseDeg, dropout⟩ := c
        cases output <;> rfl

/-- The sensor at a place of the scenario, however far its schedule has been drained. -/
structure Realizes (s : Sensor α) (config : SensorConfig α) (index : Nat) : Prop where
  handle : s.handle = ⟨index⟩
  model : s.model = config.model

/-- **A sensor draws, and then reports.** -/
theorem observe_eq {s : Sensor α} {config : SensorConfig α} {index : Nat}
    (h : s.Realizes config index) (body : BodyHandle) (time : α) (truth : TrueState α) (source : γ) :
    s.observe body time truth source = (config.draw source).map fun p =>
      ((config.report truth p.1).map fun reading => ⟨body, ⟨index⟩, time, reading⟩, p.2) := by
  simp only [observe, h.handle, h.model, look_eq]
  cases config.draw source with
  | error e => rfl
  | ok answer => rfl

end Sensor

end Firing

/-! ### When and where sensors fire -/

namespace Firing

variable {α : Type} [Scalar α] {sensors sensors' : List (Sensor α)}

theorem places_due (h : sensors'.map Sensor.schedule = sensors.map Sensor.schedule) (now : α) :
    (due now sensors').map place = (due now sensors).map place := by
  have hcollect : ∀ sensors : List (Sensor α), (collect now 0 sensors).map place =
      (sensors.map Sensor.schedule).zipIdx.flatMap fun p => (p.1.due now).map (·, p.2) := by
    intro sensors
    rw [collect_eq, List.map_flatMap, List.zipIdx_map, List.flatMap_map]
    simp only [List.map_map]
    rfl
  have hsort : ∀ sensors : List (Sensor α), (due now sensors).map place =
      ((collect now 0 sensors).map place).mergeSort fun p q =>
        decide (p.1 < q.1) || (!decide (q.1 < p.1) && decide (p.2 ≤ q.2)) :=
    fun sensors => List.map_mergeSort fun _ _ _ _ => rfl
  rw [hsort, hsort, hcollect, hcollect, h]

theorem schedules_drained (now : α) (sensors : List (Sensor α)) :
    (Run.drained now sensors).map Sensor.schedule =
      (sensors.map Sensor.schedule).map fun s => (s.drain now).2 := by
  rw [Run.drained, List.map_map, List.map_map]
  rfl

/-- **When and where sensors fire** depends on their schedules alone. -/
theorem places_along (h : sensors'.map Sensor.schedule = sensors.map Sensor.schedule)
    (times : List α) : (along sensors' times).map place = (along sensors times).map place := by
  induction times generalizing sensors sensors' with
  | nil => rfl
  | cons now rest ih =>
    have hdrained : (Run.drained now sensors').map Sensor.schedule =
        (Run.drained now sensors).map Sensor.schedule := by
      rw [schedules_drained, schedules_drained, h]
    rw [along, along, List.map_append, List.map_append, places_due h, ih hdrained]

theorem sensor_of_mem_along {f : Firing α} {times : List α} (h : f ∈ along sensors times) :
    ∃ s, sensors[f.index]? = some s ∧ f.sensor.handle = s.handle ∧ f.sensor.model = s.model := by
  induction times generalizing sensors with
  | nil => cases h
  | cons now rest ih =>
    rcases List.mem_append.1 h with hnow | hlater
    · exact ⟨f.sensor, (mem_due.1 hnow).1, rfl, rfl⟩
    · obtain ⟨s', hs', hhandle, hmodel⟩ := ih hlater
      rw [Run.drained, List.getElem?_map] at hs'
      obtain ⟨s, hs, rfl⟩ := Option.map_eq_some_iff.1 hs'
      exact ⟨s, hs, hhandle, hmodel⟩

end Firing

/-! ### One firing after another -/

/-- What is drawn at one firing. -/
structure Drawing (γ α : Type) where
  time : α
  /-- The place of the sensor in the scenario. -/
  index : Nat
  /-- The random source before the sensor draws from it. -/
  source : γ
  draw : Draw α
  /-- The random source afterwards. -/
  after : γ

/-- When and where. -/
def Drawing.place {γ α : Type} (d : Drawing γ α) : α × Nat := (d.time, d.index)

section Drawn

variable {γ α : Type} [Scalar α]

namespace Scenario

/-- The reading that a scenario makes of what is drawn. -/
def reading? (c : Scenario α) (d : Drawing γ α) : Option (Reading α) :=
  c.sensors[d.index]?.bind fun s => s.report ((Truth.ofBody c.body).atTime d.time) d.draw

/-- The message of the reading. -/
def message? (c : Scenario α) (d : Drawing γ α) : Option (Message α) :=
  (c.reading? d).map fun reading => ⟨Run.body, ⟨d.index⟩, d.time, reading⟩

/-- What a sensor of the scenario sees, given what is drawn. -/
def sighting (c : Scenario α) (d : Drawing γ α) : Sighting γ α :=
  ⟨d.time, d.index, d.source, .ok (c.message? d, d.after)⟩

end Scenario

variable [NoiseSource γ α]

/-- From a random source, sensors draw one after another, each from what the one before it left. -/
inductive Drawn (sensors : List (SensorConfig α)) : γ → List (Drawing γ α) → γ → Prop
  | nil (source : γ) : Drawn sensors source [] source
  | cons {time : α} {index : Nat} {s : SensorConfig α} {source after last : γ} {draw : Draw α}
      {rest : List (Drawing γ α)} :
      sensors[index]? = some s → s.draw source = .ok (draw, after) →
      Drawn sensors after rest last →
      Drawn sensors source (⟨time, index, source, draw, after⟩ :: rest) last

namespace Drawn

variable {sensors sensors' : List (SensorConfig α)} {source last last' : γ}
  {drawings drawings' : List (Drawing γ α)}

/-- **What is drawn is determined** by the source and by when and where sensors fire, up to what sensors
that draw alike may differ in. -/
theorem unique (hsensors : List.Forall₂ SensorConfig.DrawsLike sensors sensors')
    (h : Drawn sensors source drawings last) (h' : Drawn sensors' source drawings' last')
    (hplaces : drawings'.map Drawing.place = drawings.map Drawing.place) :
    drawings' = drawings ∧ last' = last := by
  induction h generalizing drawings' with
  | nil source =>
    cases h' with
    | nil _ => exact ⟨rfl, rfl⟩
    | cons _ _ _ => cases hplaces
  | cons hs hdraw _ ih =>
    cases h' with
    | nil _ => cases hplaces
    | cons hs' hdraw' hrest' =>
      obtain ⟨hplace, hrests⟩ := List.cons.inj hplaces
      obtain ⟨rfl, rfl⟩ := Prod.mk.inj hplace
      -- both sensors stand at the same place and draw from the same source
      obtain ⟨hlt, rfl⟩ := List.getElem?_eq_some_iff.1 hs
      obtain ⟨hlt', rfl⟩ := List.getElem?_eq_some_iff.1 hs'
      have halike := hsensors.get hlt hlt'
      rw [List.get_eq_getElem, List.get_eq_getElem] at halike
      rw [halike.draw, hdraw] at hdraw'
      cases hdraw'
      obtain ⟨rfl, rfl⟩ := ih hrest' hrests
      exact ⟨rfl, rfl⟩

theorem isSome_message? {c : Scenario α} (h : Drawn c.sensors source drawings last) :
    ∀ d ∈ drawings, (c.message? d).isSome = !d.draw.isLost := by
  induction h with
  | nil source => exact List.forall_mem_nil _
  | cons hs hdraw _ ih =>
    refine List.forall_mem_cons.2 ⟨?_, ih⟩
    rw [Scenario.message?, Option.isSome_map, Scenario.reading?, hs]
    exact SensorConfig.isSome_report hdraw _

theorem headers {c : Scenario α} (h : Drawn c.sensors source drawings last) :
    (drawings.filterMap c.message?).map (fun m => (m.sensor, m.timestamp)) =
      (drawings.filter fun d => !d.draw.isLost).map fun d => (⟨d.index⟩, d.time) := by
  have hsome := h.isSome_message?
  rw [List.map_filterMap, ← List.filterMap_eq_filter, List.map_filterMap]
  refine List.filterMap_congr fun d hd => ?_
  rw [Option.guard, ← hsome d hd, Scenario.message?]
  cases c.reading? d <;> rfl

end Drawn

/-- **What is seen is told by what is drawn.** -/
theorem Observed.drawn {c : Scenario α} {source last : γ} {firings : List (Firing α)}
    {log : List (Sighting γ α)}
    (h : Observed Run.body (Truth.ofBody c.body) source firings log last)
    (hfirings : ∀ f ∈ firings, ∃ s, c.sensors[f.index]? = some s ∧ f.sensor.Realizes s f.index) :
    ∃ drawings, Drawn c.sensors source drawings last ∧
      drawings.map Drawing.place = firings.map Firing.place ∧ log = drawings.map c.sighting := by
  induction h with
  | nil source => exact ⟨[], .nil source, rfl, rfl⟩
  | @cons f rest log source after last message hseen _ ih =>
    obtain ⟨⟨s, hs, hrealizes⟩, hrest⟩ := List.forall_mem_cons.1 hfirings
    obtain ⟨drawings, hdrawn, hplaces, rfl⟩ := ih hrest
    rw [Sensor.observe_eq hrealizes] at hseen
    cases hdraw : s.draw source with
    | error e =>
      rw [hdraw] at hseen
      cases hseen
    | ok answer =>
      rw [hdraw] at hseen
      cases hseen
      refine ⟨⟨f.time, f.index, source, answer.1, answer.2⟩ :: drawings, .cons hs hdraw hdrawn, ?_, ?_⟩
      · rw [List.map_cons, List.map_cons, hplaces]
        rfl
      · rw [List.map_cons, Scenario.sighting, Scenario.message?, Scenario.reading?, hs]
        rfl

end Drawn

/-! ### Runs -/

section SetUp

variable {γ α : Type} [Scalar α]

theorem Sensor.deviation_eq_ok {x y : α} (h : deviation x = .ok y) : y = x := by
  unfold deviation at h
  split at h
  · cases h
    rfl
  · cases h

theorem Sensor.ofConfig_eq_ok {config : SensorConfig α} {index : Nat} {s : Sensor α}
    (h : ofConfig config ⟨index⟩ = .ok s) : s = config.sensor index := by
  cases config with
  | camera c =>
    obtain ⟨position, hposition, h⟩ := bind_eq_ok_iff.1 h
    obtain ⟨orientation, horientation, h⟩ := bind_eq_ok_iff.1 h
    cases deviation_eq_ok hposition
    cases deviation_eq_ok horientation
    cases h
    rfl
  | gyro g =>
    obtain ⟨rate, hrate, h⟩ := bind_eq_ok_iff.1 h
    cases deviation_eq_ok hrate
    cases h
    rfl

theorem Run.makeSensors_eq_ok {index : Nat} {configs : List (SensorConfig α)}
    {sensors : List (Sensor α)} (h : makeSensors index configs = .ok sensors) :
    sensors = (configs.zipIdx index).map fun p => p.1.sensor p.2 := by
  induction configs generalizing index sensors with
  | nil =>
    cases h
    rfl
  | cons config rest ih =>
    obtain ⟨s, hs, h⟩ := bind_eq_ok_iff.1 h
    obtain ⟨sensors', hrest, h⟩ := bind_eq_ok_iff.1 h
    cases h
    rw [Sensor.ofConfig_eq_ok hs, ih hrest, List.zipIdx_cons, List.map_cons]

/-- What a run starts with. -/
structure Run.Starts (c : Scenario α) (source : γ) (r : Run γ α) : Prop where
  scenario : r.scenario = c
  sensors : r.sensors = c.sensors.zipIdx.map fun p => p.1.sensor p.2
  handle : r.tracker.handle = body
  source : r.source = source
  measurements : r.measurements = 0
  dropped : r.dropped = 0

theorem Run.starts_of_create {c : Scenario α} {source : γ} {r : Run γ α}
    (h : create c source = .ok r) : r.Starts c source := by
  obtain ⟨-, h⟩ := bind_unit_eq_ok_iff.1 h
  obtain ⟨sensors, hsensors, h⟩ := bind_eq_ok_iff.1 h
  obtain ⟨tracker, htracker, h⟩ := bind_eq_ok_iff.1 h
  obtain ⟨-, htracker⟩ := bind_unit_eq_ok_iff.1 (mapError_eq_ok_iff.1 htracker)
  cases htracker
  cases h
  exact ⟨rfl, makeSensors_eq_ok hsensors, rfl, rfl, rfl, rfl⟩

namespace Run.Starts

variable {c : Scenario α} {source : γ} {r : Run γ α}

theorem schedules (h : r.Starts c source) :
    r.sensors.map Sensor.schedule = (c.sensors.map SensorConfig.rate).map Schedule.ofRate := by
  have hschedule : Sensor.schedule ∘ (fun p : SensorConfig α × Nat => p.1.sensor p.2) =
      (Schedule.ofRate ∘ SensorConfig.rate) ∘ Prod.fst := rfl
  rw [h.sensors, List.map_map, hschedule, ← List.map_map, List.zipIdx_map_fst, List.map_map]

theorem realizes (h : r.Starts c source) {times : List α} :
    ∀ f ∈ Firing.along r.sensors times,
      ∃ s, c.sensors[f.index]? = some s ∧ f.sensor.Realizes s f.index := by
  intro f hf
  obtain ⟨s, hs, hhandle, hmodel⟩ := Firing.sensor_of_mem_along hf
  rw [h.sensors, List.getElem?_map, List.getElem?_zipIdx] at hs
  obtain ⟨p, hp, rfl⟩ := Option.map_eq_some_iff.1 hs
  obtain ⟨config, hconfig, rfl⟩ := Option.map_eq_some_iff.1 hp
  refine ⟨config, hconfig, hhandle.trans ?_, hmodel⟩
  rw [Nat.zero_add]
  rfl

end Run.Starts

end SetUp

namespace Run

variable {γ α : Type} [Spectral α] [NoiseSource γ α] {c c' : Scenario α} {r r' e e' : Run γ α}
  {source : γ} {times : List α}

/-- Steps of a run told by what was drawn on the way: what was seen, what the tracker was given, and
what was counted. -/
structure Tells (c : Scenario α) (r : Run γ α) (times : List α) (e : Run γ α)
    (drawings : List (Drawing γ α)) : Prop where
  drawn : Drawn c.sensors r.source drawings e.source
  log : r.log times = drawings.map c.sighting
  tracker : ∃ inputs, e.tracker = (r.tracker.processAll inputs).2 ∧
    inputs.filterMap Input.message? = drawings.filterMap c.message?
  headers : (drawings.filterMap c.message?).map (fun m => (m.sensor, m.timestamp)) =
    (drawings.filter fun d => !d.draw.isLost).map fun d => (⟨d.index⟩, d.time)
  measurements : e.measurements = drawings.countP fun d => !d.draw.isLost
  dropped : e.dropped = drawings.countP fun d => d.draw.isLost

/-- **A run without an error is told by what was drawn**, where its sensors fired. -/
theorem tells (h : r.Starts c source) (hok : r.stepAll times = (.ok (), e)) :
    ∃ drawings, r.Tells c times e drawings ∧
      drawings.map Drawing.place = (Firing.along r.sensors times).map Firing.place := by
  obtain ⟨⟨inputs, hwent⟩, -⟩ := stepAll_went hok
  have hobserved := hwent.observed
  rw [h.handle, h.scenario] at hobserved
  obtain ⟨drawings, hdrawn, hplaces, hlog⟩ := hobserved.drawn h.realizes
  have hsent : ∀ d : Drawing γ α, (c.sighting d).message? = c.message? d := fun d => rfl
  refine ⟨drawings, ⟨hdrawn, hlog, ⟨inputs, hwent.tracker, ?_⟩, hdrawn.headers, ?_, ?_⟩, hplaces⟩
  · rw [hwent.messages, hlog, List.filterMap_map]
    rfl
  · rw [hwent.measurements, h.measurements, hlog, List.countP_map, Nat.zero_add]
    refine List.countP_congr fun d hd => ?_
    rw [← hdrawn.isSome_message? d hd]
    rfl
  · rw [hwent.dropped, h.dropped, hlog, List.countP_map, Nat.zero_add]
    refine List.countP_congr fun d hd => ?_
    have hsome := hdrawn.isSome_message? d hd
    rw [Function.comp_apply, hsent, ← Option.not_isSome, hsome, Bool.not_not]

omit [NoiseSource γ α] in
theorem schedules_eq (hsensors : List.Forall₂ SensorConfig.DrawsLike c.sensors c'.sensors)
    {source' : γ} (h : r.Starts c source) (h' : r'.Starts c' source') :
    r'.sensors.map Sensor.schedule = r.sensors.map Sensor.schedule := by
  rw [h.schedules, h'.schedules, SensorConfig.rates_eq hsensors]

/-- **Common random numbers.**  Two scenarios that can be set up have the same seed and sensors of the same
kinds, rates and chances of losing a frame, in the same order; all else may differ.  As long as both run
without an error along the same times, one list of draws tells both: at each firing the random source is
in the same state, the same frames are lost, and the noise of both is made of the same standard normal
numbers, each run's scaled by its own standard deviations. -/
theorem common_random_numbers (seeded : UInt64 → γ) (hseed : c'.run.seed = c.run.seed)
    (hsensors : List.Forall₂ SensorConfig.DrawsLike c.sensors c'.sensors)
    (hr : create c (seeded c.run.seed) = .ok r) (hr' : create c' (seeded c'.run.seed) = .ok r')
    (hok : r.stepAll times = (.ok (), e)) (hok' : r'.stepAll times = (.ok (), e')) :
    ∃ drawings, r.Tells c times e drawings ∧ r'.Tells c' times e' drawings ∧ e'.source = e.source := by
  have hstarts := starts_of_create hr
  have hstarts' := starts_of_create hr'
  obtain ⟨drawings, htells, hplaces⟩ := tells hstarts hok
  obtain ⟨drawings', htells', hplaces'⟩ := tells hstarts' hok'
  have hsource : r'.source = r.source := by rw [hstarts.source, hstarts'.source, hseed]
  have hfirings := Firing.places_along (schedules_eq hsensors hstarts hstarts') times
  -- each run has draws of its own so far; the same places and the same source make them one list
  have hdrawn' := htells'.drawn
  rw [hsource] at hdrawn'
  obtain ⟨rfl, hlast⟩ := htells.drawn.unique hsensors hdrawn' (by rw [hplaces, hplaces', hfirings])
  exact ⟨_, htells, htells', hlast⟩

/-- The standard body and a thrown one, whose sensors draw alike but report differently, for half a second
in two steps. -/
theorem common_random_numbers_thrown :
    ∃ (r r' e e' : Run ExactStream ℝ) (drawings : List (Drawing ExactStream ℝ)),
      create Scenario.patchy ⟨RandomStream.seeded Scenario.patchy.run.seed⟩ = .ok r ∧
      create Scenario.thrown ⟨RandomStream.seeded Scenario.thrown.run.seed⟩ = .ok r' ∧
      r.stepAll [1 / 4, 1 / 2] = (.ok (), e) ∧ r'.stepAll [1 / 4, 1 / 2] = (.ok (), e') ∧
      r.Tells Scenario.patchy [1 / 4, 1 / 2] e drawings ∧
      r'.Tells Scenario.thrown [1 / 4, 1 / 2] e' drawings ∧ e'.source = e.source := by
  have hchain : [(0 : ℝ), 1 / 4, 1 / 2].IsChain (· ≤ ·) := by norm_num
  have hrun : ∀ {c : Scenario ℝ}, c.Valid → ∃ r e : Run ExactStream ℝ,
      create c ⟨RandomStream.seeded c.run.seed⟩ = .ok r ∧ r.stepAll [1 / 4, 1 / 2] = (.ok (), e) := by
    intro c hc
    have hsteady := initial_steady (P := Tracker.Accounts) hc
      (ExactStream.mk (RandomStream.seeded c.run.seed)) ⟨⟨Exact.isFinite_eq _, _, rfl⟩, rfl⟩
    obtain ⟨e, hok, -⟩ := stepAll_steady Tracker.upheld_accounts ExactStream.decides hsteady hchain
    exact ⟨_, e, create_of_valid (Scenario.validate_eq_ok_iff.2 hc) _, hok⟩
  obtain ⟨r, e, hr, hok⟩ := hrun Scenario.valid_patchy
  obtain ⟨r', e', hr', hok'⟩ := hrun Scenario.valid_thrown
  have hseed : Scenario.thrown.run.seed = Scenario.patchy.run.seed := rfl
  have hsensors : List.Forall₂ SensorConfig.DrawsLike Scenario.patchy.sensors
      Scenario.thrown.sensors := .cons (.camera rfl rfl) (.cons (.gyro rfl) .nil)
  obtain ⟨drawings, h⟩ := common_random_numbers (fun seed => ⟨RandomStream.seeded seed⟩) hseed
    hsensors hr hr' hok hok'
  exact ⟨r, r', e, e', drawings, hr, hr', hok, hok', h⟩

end Run

end PoseFilter
