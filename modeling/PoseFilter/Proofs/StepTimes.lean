import PoseFilter.Proofs.Progress

/-!
# Steps leave no trace in what is measured

All sensors draw from one random source, so what a sensor sees depends on every draw before it, and one
firing out of turn would change all that follow.  How a run is cut into steps does not: over any type of
numbers whose order is total on the firings, the sensors are asked at all firings up to the last time,
each once, in the order of the times and at one time in the order of the sensors.  So two runs that go
on to the same time without an error draw the same numbers, send the same messages and count the same
(`Run.step_times_unobservable`), whatever their trackers make of it.
-/

namespace PoseFilter

namespace Run

variable {γ α : Type} [Spectral α] [NoiseSource γ α]

/-- Two runs that agree in all that the sensors have to do with. -/
structure Alike (r r' : Run γ α) : Prop where
  body : r'.scenario.body = r.scenario.body
  handle : r'.tracker.handle = r.tracker.handle
  sensors : r'.sensors = r.sensors
  source : r'.source = r.source
  measurements : r'.measurements = r.measurements
  dropped : r'.dropped = r.dropped

/-- Sensors that have not fired, at positive rates and with firings that do not decrease. -/
structure Fresh (sensors : List (Sensor α)) : Prop where
  rate : ∀ s ∈ sensors, ∃ rate, 0 < rate ∧ Scalar.isFinite rate = true ∧
    s.schedule = Schedule.ofRate rate
  mono : ∀ s ∈ sensors, ∀ j k, 1 ≤ j → j ≤ k → s.schedule.firing j ≤ s.schedule.firing k

variable [Chronology α] {r r' : Run γ α} {times : List α} {last : α}

namespace Fresh

variable {sensors : List (Sensor α)}

omit [Chronology α] in
theorem fired (h : Fresh sensors) : ∀ s ∈ sensors, s.schedule.fired = 0 := by
  intro s hs
  obtain ⟨rate, -, -, heq⟩ := h.rate s hs
  rw [heq]
  rfl

theorem ticks (h : Fresh sensors) (hlast : Scalar.isFinite last = true) :
    ∀ s ∈ sensors, s.schedule.Ticks last := by
  intro s hs
  obtain ⟨rate, hpos, hfinite, heq⟩ := h.rate s hs
  have hmono := h.mono s hs
  rw [heq] at hmono ⊢
  exact Schedule.ticks_of_mono hpos hfinite hlast fun hj hjk => hmono _ _ hj hjk

theorem punctual (h : Fresh sensors) {now : α} (hticks : ∀ s ∈ sensors, s.schedule.Ticks now) :
    ∀ s ∈ sensors, s.Punctual now := by
  intro s hs
  obtain ⟨n, hn⟩ := Schedule.exists_reaches (hticks s hs)
  exact ⟨hticks s hs, n, hn, by rw [h.fired s hs]; exact Nat.zero_le n⟩

end Fresh

/-- **What is seen along the steps** is what would be seen in a single step to the last time. -/
theorem observed_log (h : r.stepAll times = (.ok (), r')) (hfresh : Fresh r.sensors)
    (hfinite : Scalar.isFinite last = true) (hchain : times.IsChain (· ≤ ·))
    (hlast : times.getLast? = some last) :
    Observed r.tracker.handle (Truth.ofBody r.scenario.body) r.source
      ((Firing.due last r.sensors).map Firing.rewound) (r.log times) r'.source := by
  cases times with
  | nil => cases hlast
  | cons now rest =>
    rw [List.getLast?_eq_some_getLast (List.cons_ne_nil _ _)] at hlast
    cases Option.some.inj hlast
    have hticks := hfresh.ticks hfinite
    have hfirst := hfresh.punctual fun s hs => Firing.ticks_of_getLast hchain (hticks s hs)
    obtain ⟨⟨inputs, hwent⟩, -⟩ := stepAll_went h
    rw [← Firing.along_eq hfirst hchain hticks]
    exact hwent.observed.rewound

/-- **The times of the steps cannot be seen in what is measured.**  Two runs that agree in all that the
sensors have to do with, whose sensors have not fired, are stepped along two sequences of times that do
not decrease and end at the same time, without an error.  Then the sensors are asked, in both runs, at
exactly the firings up to that time, each once, sorted by time and then by sensor; and all that is drawn
and sent, and what is counted, is the same. -/
theorem step_times_unobservable (halike : r.Alike r') (hfresh : Fresh r.sensors)
    (hfinite : Scalar.isFinite last = true) {times' : List α}
    (hchain : times.IsChain (· ≤ ·)) (hchain' : times'.IsChain (· ≤ ·))
    (hlast : times.getLast? = some last) (hlast' : times'.getLast? = some last) {e e' : Run γ α}
    (hok : r.stepAll times = (.ok (), e)) (hok' : r'.stepAll times' = (.ok (), e')) :
    ∃ count : Sensor α → Nat, (∀ s ∈ r.sensors, s.schedule.Reaches last (count s)) ∧
      ((r.log times).map Sighting.place).Perm (r.sensors.zipIdx.flatMap fun p =>
        (List.range' 1 (count p.1)).map fun k => (p.1.schedule.firing k, p.2)) ∧
      ((r.log times).map Sighting.place).Pairwise (fun a b => a.1 < b.1 ∨ a.1 = b.1 ∧ a.2 ≤ b.2) ∧
      r'.log times' = r.log times ∧ e'.source = e.source ∧ e'.measurements = e.measurements ∧
      e'.dropped = e.dropped := by
  have hticks := hfresh.ticks hfinite
  have hobserved := observed_log hok hfresh hfinite hchain hlast
  have hobserved' := observed_log hok' (halike.sensors ▸ hfresh) hfinite hchain' hlast'
  rw [halike.handle, halike.body, halike.source, halike.sensors] at hobserved'
  obtain ⟨hlog, hsource⟩ := hobserved'.unique hobserved
  obtain ⟨⟨inputs, hwent⟩, -⟩ := stepAll_went hok
  obtain ⟨⟨inputs', hwent'⟩, -⟩ := stepAll_went hok'
  have hplaces : (r.log times).map Sighting.place = (Firing.due last r.sensors).map Firing.place := by
    rw [hobserved.places, Firing.map_place_rewound]
  -- how often a sensor fires up to the last time is a number of its schedule
  have hexists : ∀ s, ∃ n, s ∈ r.sensors → s.schedule.Reaches last n := by
    intro s
    by_cases hs : s ∈ r.sensors
    · obtain ⟨n, hn⟩ := Schedule.exists_reaches (hticks s hs)
      exact ⟨n, fun _ => hn⟩
    · exact ⟨0, fun h => absurd h hs⟩
  choose count hcount using hexists
  refine ⟨count, hcount, ?_, ?_, hlog, hsource, ?_, ?_⟩
  · rw [hplaces]
    refine (Firing.place_due_perm _ _).trans (.of_eq (List.flatMap_congr fun p hp => ?_))
    have hmem : p.1 ∈ r.sensors := List.mem_of_getElem? (List.mem_zipIdx_iff_getElem?.1 hp)
    rw [Schedule.due_of_fresh (hcount p.1 hmem) (hfresh.fired p.1 hmem), List.map_map]
    rfl
  · rw [hplaces]
    exact Firing.place_due_sorted (hfresh.punctual hticks)
  · rw [hwent'.measurements, hwent.measurements, halike.measurements, hlog]
  · rw [hwent'.dropped, hwent.dropped, halike.dropped, hlog]

/-- One second of a camera at 30 Hz that loses every other frame, and of a gyroscope at 200 Hz, in two
steps and in three. -/
theorem step_times_unobservable_patchy :
    ∃ r e e' : Run ExactStream ℝ, r = initial Scenario.patchy ⟨RandomStream.seeded 7⟩ ∧
      r.stepAll [1 / 2, 1] = (.ok (), e) ∧ r.stepAll [1 / 3, 2 / 3, 1] = (.ok (), e') ∧
      r.log [1 / 3, 2 / 3, 1] = r.log [1 / 2, 1] ∧ e'.source = e.source ∧
      e'.measurements = e.measurements ∧ e'.dropped = e.dropped := by
  have hsteady := initial_steady (P := Tracker.Accounts) Scenario.valid_patchy
    (ExactStream.mk (RandomStream.seeded 7)) ⟨⟨Exact.isFinite_eq _, _, rfl⟩, rfl⟩
  have hfresh : Fresh (initial Scenario.patchy (ExactStream.mk (RandomStream.seeded 7))).sensors := by
    refine ⟨fun s hs => ?_, fun s hs j k => (hsteady.ticks s hs 1).mono⟩
    obtain ⟨config, index, hconfig, rfl⟩ := mem_sensors_initial.1 hs
    have hvalid := Scenario.valid_patchy.sensors config (List.mem_of_getElem? hconfig)
    exact ⟨config.rate, hvalid.rate_pos, Exact.isFinite_eq _, rfl⟩
  have hchain : [(0 : ℝ), 1 / 2, 1].IsChain (· ≤ ·) := by norm_num
  have hchain' : [(0 : ℝ), 1 / 3, 2 / 3, 1].IsChain (· ≤ ·) := by norm_num
  obtain ⟨e, hok, -⟩ := stepAll_steady Tracker.upheld_accounts ExactStream.decides hsteady hchain
  obtain ⟨e', hok', -⟩ := stepAll_steady Tracker.upheld_accounts ExactStream.decides hsteady hchain'
  obtain ⟨-, -, -, -, h⟩ := step_times_unobservable ⟨rfl, rfl, rfl, rfl, rfl, rfl⟩ hfresh
    (Exact.isFinite_eq 1) (List.isChain_cons_cons.1 hchain).2 (List.isChain_cons_cons.1 hchain').2
    rfl rfl hok hok'
  exact ⟨_, e, e', rfl, hok, hok', h⟩

end Run

end PoseFilter
