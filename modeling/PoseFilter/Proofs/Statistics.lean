import PoseFilter.Proofs.Angle
import PoseFilter.Proofs.Progress
import PoseFilter.Proofs.TrueMotion

/-!
# Error statistics

The statistics are kept by a fold with one accumulator each for the count, the two sums of squares and
the two maxima, and the last error.  `ErrorStats.recordAll_eq` says what all of them are after any list of
errors; the rest is about lists of numbers.  For numbers that are not negative the root mean square lies
between the largest over the root of the count and the largest (`ErrorStats.rms_le_peak`,
`ErrorStats.peak_le`), and the order does not matter.

In a run every recorded error compares two unit orientations, that of the true motion and that of a
tracker that is sound (`Tracker.upheld_sound`), so its attitude lies between 0 and 180 degrees
(`Run.stepAll_scores`), and so do the statistics.

* `ErrorStats.statistics_closed_form` : the statistics in closed form, and the bounds for runs.
-/

namespace PoseFilter

namespace ErrorStats

/-! ### Lists of numbers -/

section Numbers

variable {xs ys : List ℝ}

/-- The sum of the squares. -/
noncomputable def sumSq (xs : List ℝ) : ℝ := (xs.map (· ^ 2)).sum

/-- The root of the mean of the squares. -/
noncomputable def rms (xs : List ℝ) : ℝ := rootMean xs.length (sumSq xs)

/-- The largest number, 0 of none. -/
noncomputable def peak (xs : List ℝ) : ℝ := xs.max?.getD 0

theorem sumSq_nonneg (xs : List ℝ) : 0 ≤ sumSq xs := by
  exact List.sum_nonneg (List.forall_mem_map.2 fun x _ => sq_nonneg x)

theorem sq_le_sumSq {x : ℝ} (hx : x ∈ xs) : x ^ 2 ≤ sumSq xs := by
  exact List.single_le_sum (List.forall_mem_map.2 fun z _ => sq_nonneg z) _ (List.mem_map_of_mem hx)

theorem rms_of_ne_nil (h : xs ≠ []) : rms xs = Real.sqrt (sumSq xs / xs.length) :=
  if_neg (List.length_pos_iff.2 h).ne'

theorem rms_nonneg (xs : List ℝ) : 0 ≤ rms xs := by
  rcases eq_or_ne xs [] with rfl | h
  · exact le_rfl
  · rw [rms_of_ne_nil h]
    exact Real.sqrt_nonneg _

theorem length_mul_sq_rms (xs : List ℝ) : xs.length * rms xs ^ 2 = sumSq xs := by
  rcases eq_or_ne xs [] with rfl | h
  · simp [sumSq]
  · have hlength : (xs.length : ℝ) ≠ 0 := Nat.cast_ne_zero.2 (List.length_pos_iff.2 h).ne'
    rw [rms_of_ne_nil h, Real.sq_sqrt (div_nonneg (sumSq_nonneg xs) (Nat.cast_nonneg _)),
      mul_div_cancel₀ _ hlength]

theorem peak_mem (h : xs ≠ []) : peak xs ∈ xs ∧ ∀ x ∈ xs, x ≤ peak xs := by
  obtain ⟨m, hm⟩ := Option.isSome_iff_exists.1 (List.isSome_max?_of_ne_nil h)
  rw [peak, hm]
  exact List.max?_eq_some_iff.1 hm

theorem peak_nonneg (hxs : ∀ x ∈ xs, 0 ≤ x) : 0 ≤ peak xs := by
  rcases eq_or_ne xs [] with rfl | h
  · exact le_rfl
  · exact hxs _ (peak_mem h).1

theorem peak_le_of_forall {bound : ℝ} (hbound : 0 ≤ bound) (hxs : ∀ x ∈ xs, x ≤ bound) :
    peak xs ≤ bound := by
  rcases eq_or_ne xs [] with rfl | h
  · exact hbound
  · exact hxs _ (peak_mem h).1

theorem foldl_max_eq_peak (hxs : ∀ x ∈ xs, 0 ≤ x) : xs.foldl max 0 = peak xs := by
  rw [List.foldl_max]
  exact max_eq_right (peak_nonneg hxs)

/-- **The root mean square is at most the maximum**: no square exceeds that of the largest. -/
theorem rms_le_peak (hxs : ∀ x ∈ xs, 0 ≤ x) : rms xs ≤ peak xs := by
  rcases eq_or_ne xs [] with rfl | h
  · exact le_rfl
  · have hlength : (0 : ℝ) < xs.length := Nat.cast_pos.2 (List.length_pos_iff.2 h)
    have hsum : sumSq xs ≤ xs.length * peak xs ^ 2 := by
      have hsquares : ∀ y ∈ xs.map (· ^ 2), y ≤ peak xs ^ 2 :=
        List.forall_mem_map.2 fun x hx => pow_le_pow_left₀ (hxs x hx) ((peak_mem h).2 x hx) 2
      have hcard := List.sum_le_card_nsmul _ _ hsquares
      rwa [List.length_map, nsmul_eq_mul] at hcard
    rw [rms_of_ne_nil h]
    refine Real.sqrt_le_iff.2 ⟨peak_nonneg hxs, ?_⟩
    rwa [div_le_iff₀ hlength, mul_comm]

/-- **The maximum is at most the root of the count times the root mean square**: its square is one of
those summed up. -/
theorem peak_le (hxs : ∀ x ∈ xs, 0 ≤ x) : peak xs ≤ Real.sqrt xs.length * rms xs := by
  rcases eq_or_ne xs [] with rfl | h
  · exact mul_nonneg (Real.sqrt_nonneg _) (rms_nonneg _)
  · calc peak xs = Real.sqrt (peak xs ^ 2) := (Real.sqrt_sq (peak_nonneg hxs)).symm
      _ ≤ Real.sqrt (sumSq xs) := Real.sqrt_le_sqrt (sq_le_sumSq (peak_mem h).1)
      _ = Real.sqrt xs.length * rms xs := by
        rw [← length_mul_sq_rms, Real.sqrt_mul (Nat.cast_nonneg _), Real.sqrt_sq (rms_nonneg xs)]

theorem rms_perm (h : xs.Perm ys) : rms ys = rms xs := by
  rw [rms, rms, h.length_eq, sumSq, sumSq, (h.map (· ^ 2)).sum_eq]

theorem peak_perm (hxs : ∀ x ∈ xs, 0 ≤ x) (h : xs.Perm ys) : peak ys = peak xs := by
  rw [← foldl_max_eq_peak hxs, ← foldl_max_eq_peak fun y hy => hxs y (h.mem_iff.2 hy), h.foldl_eq]

theorem part_spec {f : PoseError ℝ → ℝ} {errors : List (PoseError ℝ)} (hf : ∀ e ∈ errors, 0 ≤ f e) :
    errors.length * rms (errors.map f) ^ 2 = (errors.map (f · ^ 2)).sum ∧
      0 ≤ rms (errors.map f) ∧ rms (errors.map f) ≤ peak (errors.map f) ∧
      peak (errors.map f) ≤ Real.sqrt errors.length * rms (errors.map f) := by
  have hnonneg : ∀ x ∈ errors.map f, 0 ≤ x := List.forall_mem_map.2 hf
  have hsum := length_mul_sq_rms (errors.map f)
  have hle := peak_le hnonneg
  rw [List.length_map] at hsum hle
  rw [sumSq, List.map_map] at hsum
  exact ⟨hsum, rms_nonneg _, rms_le_peak hnonneg, hle⟩

end Numbers

/-! ### Lists of errors -/

/-- Errors recorded one after another. -/
def recordAll {α : Type} [Scalar α] (s : ErrorStats α) (errors : List (PoseError α)) : ErrorStats α :=
  errors.foldl record s

variable {errors : List (PoseError ℝ)}

/-- **What the accumulators hold** after a list of errors. -/
theorem recordAll_eq (s : ErrorStats ℝ) (errors : List (PoseError ℝ)) :
    s.recordAll errors = {
      samples := s.samples + errors.length
      sumSqPosition := s.sumSqPosition + sumSq (errors.map (·.position))
      sumSqAttitude := s.sumSqAttitude + sumSq (errors.map (·.attitudeDeg))
      maxPosition := (errors.map (·.position)).foldl max s.maxPosition
      maxAttitudeDeg := (errors.map (·.attitudeDeg)).foldl max s.maxAttitudeDeg
      last := errors.getLast?.or s.last } := by
  induction errors generalizing s with
  | nil => simp [recordAll, sumSq]
  | cons e rest ih =>
    have hlast : (e :: rest).getLast?.or s.last = rest.getLast?.or (some e) := by
      rw [List.getLast?_cons]
      cases rest.getLast? <;> rfl
    have hstep : s.recordAll (e :: rest) = (s.record e).recordAll rest := rfl
    have hsum : ∀ (x : ℝ) (xs : List ℝ), sumSq (x :: xs) = x * x + sumSq xs := by
      intro x xs
      rw [sumSq, List.map_cons, List.sum_cons, sq, sumSq]
    rw [hstep, ih]
    simp only [record, Exact.greater_eq, List.map_cons, List.foldl_cons, List.length_cons, hsum, hlast,
      add_assoc, add_comm 1]

/-- The statistics of a list of errors. -/
structure SumsUp (s : ErrorStats ℝ) (errors : List (PoseError ℝ)) : Prop where
  samples : s.samples = errors.length
  rmsPosition : s.rmsPosition = rms (errors.map (·.position))
  rmsAttitudeDeg : s.rmsAttitudeDeg = rms (errors.map (·.attitudeDeg))
  maxPosition : s.maxPosition = peak (errors.map (·.position))
  maxAttitudeDeg : s.maxAttitudeDeg = peak (errors.map (·.attitudeDeg))
  last : s.last = errors.getLast?

theorem recordAll_sumsUp (hposition : ∀ e ∈ errors, 0 ≤ e.position)
    (hattitude : ∀ e ∈ errors, 0 ≤ e.attitudeDeg) : (empty.recordAll errors).SumsUp errors := by
  have hrms : ∀ f : PoseError ℝ → ℝ,
      rootMean (0 + errors.length) (0 + sumSq (errors.map f)) = rms (errors.map f) := by
    intro f
    rw [rms, List.length_map, zero_add, zero_add]
  rw [recordAll_eq]
  exact {
    samples := Nat.zero_add _
    rmsPosition := hrms _
    rmsAttitudeDeg := hrms _
    maxPosition := foldl_max_eq_peak (List.forall_mem_map.2 hposition)
    maxAttitudeDeg := foldl_max_eq_peak (List.forall_mem_map.2 hattitude)
    last := Option.or_none }

theorem SumsUp.perm {s s' : ErrorStats ℝ} {errors' : List (PoseError ℝ)} (h : s.SumsUp errors)
    (h' : s'.SumsUp errors') (hposition : ∀ e ∈ errors, 0 ≤ e.position)
    (hattitude : ∀ e ∈ errors, 0 ≤ e.attitudeDeg) (hperm : errors.Perm errors') :
    s'.samples = s.samples ∧
      (s'.rmsPosition = s.rmsPosition ∧ s'.rmsAttitudeDeg = s.rmsAttitudeDeg) ∧
      s'.maxPosition = s.maxPosition ∧ s'.maxAttitudeDeg = s.maxAttitudeDeg := by
  refine ⟨?_, ⟨?_, ?_⟩, ?_, ?_⟩
  · rw [h.samples, h'.samples, hperm.length_eq]
  · rw [h.rmsPosition, h'.rmsPosition, rms_perm (hperm.map _)]
  · rw [h.rmsAttitudeDeg, h'.rmsAttitudeDeg, rms_perm (hperm.map _)]
  · rw [h.maxPosition, h'.maxPosition, peak_perm (List.forall_mem_map.2 hposition) (hperm.map _)]
  · rw [h.maxAttitudeDeg, h'.maxAttitudeDeg,
      peak_perm (List.forall_mem_map.2 hattitude) (hperm.map _)]

end ErrorStats

/-! ### Errors along a run -/

namespace Tracker

variable [Diagonalization]

/-- **A tracker stays sound along a run**, with or without a gate. -/
theorem upheld_sound : Upheld fun _ t => t.Sound := by
  refine ⟨Sound.orderly, ?_, ?_⟩
  · intro n t message h _ _ hnoise
    have hsymmetric : (Input.measurement message).Symmetric := isSymm_of_posSemidef hnoise.posSemidef
    exact (process_sound h hsymmetric).1
  · intro n t time h _
    have hsymmetric : (Input.timeStep time : Input ℝ).Symmetric := trivial
    exact (process_sound h hsymmetric).1

end Tracker

namespace Run

variable {γ : Type} [Diagonalization]

theorem errorAt_mem {r : Run γ ℝ} (hstart : r.scenario.body.start.orientation.IsUnit)
    (ht : r.tracker.Sound) (now : ℝ) : 0 ≤ (r.errorAt now).position ∧
      0 ≤ (r.errorAt now).attitudeDeg ∧ (r.errorAt now).attitudeDeg ≤ 180 := by
  have htruth : ((Truth.ofBody r.scenario.body).atTime now).pose.orientation.IsUnit :=
    Truth.isUnit_orientation_atTime hstart now
  exact ⟨PoseError.position_nonneg _ _, PoseError.attitudeDeg_mem htruth ht.state.unit⟩

variable [NoiseSource γ ℝ]

/-- **What a run records** is a list of errors of at most half a turn. -/
theorem stepAll_scores (hsource : Sensor.Decides γ) {r r' : Run γ ℝ} {now : ℝ} {times : List ℝ}
    (hr : r.Steady (fun _ t => t.Sound) now) (hstart : r.scenario.body.start.orientation.IsUnit)
    (hchain : (now :: times).IsChain (· ≤ ·)) (h : r.stepAll times = (.ok (), r')) :
    ∃ errors : List (PoseError ℝ), r'.stats = r.stats.recordAll errors ∧
      ∀ e ∈ errors, 0 ≤ e.position ∧ 0 ≤ e.attitudeDeg ∧ e.attitudeDeg ≤ 180 := by
  induction times generalizing r now with
  | nil =>
    cases h
    exact ⟨[], rfl, List.forall_mem_nil _⟩
  | cons now' rest ih =>
    obtain ⟨hle, hrest⟩ := List.isChain_cons_cons.1 hchain
    obtain ⟨r₁, hstep, hsteady⟩ := step_steady Tracker.upheld_sound hsource hr hle
    obtain ⟨⟨inputs, hwent⟩, hstats⟩ := step_went hstep
    have hstart' : r₁.scenario.body.start.orientation.IsUnit := by rwa [hwent.scenario]
    rw [stepAll, hstep] at h
    obtain ⟨errors, hrecorded, hrange⟩ := ih hsteady hstart' hrest h
    refine ⟨r₁.errorAt now' :: errors, ?_, ?_⟩
    · rw [hrecorded, hstats]
      rfl
    · exact List.forall_mem_cons.2 ⟨errorAt_mem hstart' hsteady.upheld now', hrange⟩

omit [NoiseSource γ ℝ] [Diagonalization] in
theorem sound_initial {c : Scenario ℝ} (hc : c.Valid) (hstart : c.body.start.orientation.IsUnit)
    (source : γ) : (initial c source).tracker.Sound := by
  have hconfig := TrackerConfig.validate_spec hc.tracker
  exact ⟨hconfig, PoseState.sound_resetCovariance hstart hconfig.initialCovariance_pos, rfl⟩

/-- **A checked scenario runs to its end**, and its statistics are those of errors of at most half a
turn. -/
theorem complete_scores (hsource : Sensor.Decides γ) {c : Scenario ℝ} (hc : c.validate = .ok ())
    (hstart : c.body.start.orientation.IsUnit) (source : γ) :
    ∃ r summary last, create c source = .ok r ∧ r.complete = (.ok summary, last) ∧
      ∃ errors : List (PoseError ℝ), summary.errors = ErrorStats.empty.recordAll errors ∧
        ∀ e ∈ errors, 0 ≤ e.position ∧ 0 ≤ e.attitudeDeg ∧ e.attitudeDeg ≤ 180 := by
  have hvalid := Scenario.validate_eq_ok_iff.1 hc
  have hsound := sound_initial hvalid hstart source
  obtain ⟨r', hall, -⟩ := steps_initial Tracker.upheld_sound hsource hvalid hsound (stepCount c)
  have hsteady : (initial c source).opened.Steady (fun _ t => t.Sound) 0 := by
    have h := initial_steady (P := fun _ t => t.Sound) hvalid source hsound
    exact ⟨h.upheld, h.timestamp, h.valid, h.ticks, h.fired⟩
  have hscores := stepAll_scores hsource hsteady hstart
    (isChain_stepTimes hvalid.stepRate_pos (stepCount c)) ((steps_eq _ 1 _).symm.trans hall)
  exact ⟨_, _, _, create_of_valid hc source, complete_of_steps hall, hscores⟩

end Run

namespace ErrorStats

/-- **The statistics in closed form.**  Let errors whose parts are not negative be recorded from nothing,
in any order.  The statistics count them, the count times the squared root mean square is the sum of the
squares, the maximum is the largest, or 0 of none, and the last is the last.  The root mean square is not
negative and at most the maximum, which is at most the root of the count times the root mean square.  No
order of the same errors gives another count, root mean square or maximum.  Hence, whatever the source
decides, every scenario that passes its check and starts from a unit rotation runs to its end with
attitude errors whose root mean square is at most their maximum, and that at most 180 degrees. -/
theorem statistics_closed_form (γ : Type) [NoiseSource γ ℝ] [Diagonalization] :
    (∀ errors : List (PoseError ℝ), (∀ e ∈ errors, 0 ≤ e.position ∧ 0 ≤ e.attitudeDeg) →
      let s := empty.recordAll errors
      s.samples = errors.length ∧
      (s.samples * s.rmsPosition ^ 2 = (errors.map (·.position ^ 2)).sum ∧
        s.samples * s.rmsAttitudeDeg ^ 2 = (errors.map (·.attitudeDeg ^ 2)).sum) ∧
      (s.maxPosition = (errors.map (·.position)).max?.getD 0 ∧
        s.maxAttitudeDeg = (errors.map (·.attitudeDeg)).max?.getD 0) ∧
      (0 ≤ s.rmsPosition ∧ s.rmsPosition ≤ s.maxPosition ∧
        s.maxPosition ≤ Real.sqrt s.samples * s.rmsPosition) ∧
      (0 ≤ s.rmsAttitudeDeg ∧ s.rmsAttitudeDeg ≤ s.maxAttitudeDeg ∧
        s.maxAttitudeDeg ≤ Real.sqrt s.samples * s.rmsAttitudeDeg) ∧
      s.last = errors.getLast? ∧
      ∀ errors' : List (PoseError ℝ), errors.Perm errors' →
        let s' := empty.recordAll errors'
        s'.samples = s.samples ∧
        (s'.rmsPosition = s.rmsPosition ∧ s'.rmsAttitudeDeg = s.rmsAttitudeDeg) ∧
        s'.maxPosition = s.maxPosition ∧ s'.maxAttitudeDeg = s.maxAttitudeDeg) ∧
    (Sensor.Decides γ →
      ∀ (c : Scenario ℝ) (source : γ), c.validate = .ok () → c.body.start.orientation.IsUnit →
        ∃ r summary last, Run.create c source = .ok r ∧ r.complete = (.ok summary, last) ∧
          0 ≤ summary.errors.rmsAttitudeDeg ∧
          summary.errors.rmsAttitudeDeg ≤ summary.errors.maxAttitudeDeg ∧
          summary.errors.maxAttitudeDeg ≤ 180) := by
  constructor
  · intro errors h s
    have hposition : ∀ e ∈ errors, 0 ≤ e.position := fun e he => (h e he).1
    have hattitude : ∀ e ∈ errors, 0 ≤ e.attitudeDeg := fun e he => (h e he).2
    -- one lemma per part of the errors, and the accumulators are those of the parts
    have hs : s.SumsUp errors := recordAll_sumsUp hposition hattitude
    obtain ⟨hsumPosition, hboundsPosition⟩ := part_spec hposition
    obtain ⟨hsumAttitude, hboundsAttitude⟩ := part_spec hattitude
    rw [hs.samples, hs.rmsPosition, hs.rmsAttitudeDeg, hs.maxPosition, hs.maxAttitudeDeg]
    refine ⟨rfl, ⟨hsumPosition, hsumAttitude⟩, ⟨rfl, rfl⟩, hboundsPosition, hboundsAttitude, hs.last, ?_⟩
    intro errors' hperm s'
    have hs' : s'.SumsUp errors' := recordAll_sumsUp
      (fun e he => hposition e (hperm.mem_iff.2 he)) fun e he => hattitude e (hperm.mem_iff.2 he)
    have hsame := hs.perm hs' hposition hattitude hperm
    rwa [hs.samples, hs.rmsPosition, hs.rmsAttitudeDeg, hs.maxPosition, hs.maxAttitudeDeg] at hsame
  · intro hsource c source hc hstart
    obtain ⟨r, summary, last, hcreate, hcomplete, errors, hrecorded, hrange⟩ :=
      Run.complete_scores hsource hc hstart source
    have hattitude : ∀ e ∈ errors, 0 ≤ e.attitudeDeg := fun e he => (hrange e he).2.1
    have hs := recordAll_sumsUp (fun e he => (hrange e he).1) hattitude
    obtain ⟨-, hnonneg, hle, -⟩ := part_spec hattitude
    refine ⟨r, summary, last, hcreate, hcomplete, ?_⟩
    rw [hrecorded, hs.rmsAttitudeDeg, hs.maxAttitudeDeg]
    exact ⟨hnonneg, hle, peak_le_of_forall (by norm_num)
      (List.forall_mem_map.2 fun e he => (hrange e he).2.2)⟩

/-- Three errors, and a camera that loses every other frame. -/
theorem statistics_closed_form_three :
    let errors : List (PoseError ℝ) := [⟨3, 1⟩, ⟨4, 7⟩, ⟨0, 7⟩]
    let s := empty.recordAll errors
    (∀ e ∈ errors, 0 ≤ e.position ∧ 0 ≤ e.attitudeDeg) ∧
      3 * s.rmsPosition ^ 2 = 25 ∧ s.rmsPosition ≤ s.maxPosition ∧
      s.maxAttitudeDeg ≤ Real.sqrt 3 * s.rmsAttitudeDeg ∧ s.last = some ⟨0, 7⟩ ∧
      ∃ (r : Run ExactStream ℝ) (summary : RunSummary ℝ) (last : Run ExactStream ℝ),
        Run.create Scenario.patchy ⟨RandomStream.seeded 7⟩ = .ok r ∧
        r.complete = (.ok summary, last) ∧ summary.errors.maxAttitudeDeg ≤ 180 := by
  intro errors s
  have hnonneg : ∀ e ∈ errors, 0 ≤ e.position ∧ 0 ≤ e.attitudeDeg := by
    intro e he
    simp only [errors, List.mem_cons, List.not_mem_nil, or_false] at he
    rcases he with rfl | rfl | rfl <;> norm_num
  obtain ⟨hlists, hruns⟩ := statistics_closed_form ExactStream
  obtain ⟨hsamples, ⟨hsum, -⟩, -, ⟨-, hle, -⟩, ⟨-, -, hmax⟩, hlast, -⟩ := hlists errors hnonneg
  obtain ⟨r, summary, last, hcreate, hcomplete, -, -, hrange⟩ := hruns ExactStream.decides
    Scenario.patchy ⟨RandomStream.seeded 7⟩ (Scenario.validate_eq_ok_iff.2 Scenario.valid_patchy)
    Quaternion.isUnit_identity
  have hthree : s.samples = 3 := hsamples
  refine ⟨hnonneg, ?_, hle, ?_, hlast, r, summary, last, hcreate, hcomplete, hrange⟩
  · rw [hthree] at hsum
    norm_num [errors] at hsum
    exact hsum
  · rw [hthree] at hmax
    exact_mod_cast hmax

end ErrorStats

end PoseFilter
