import PoseFilter.Proofs.Doubles
import PoseFilter.Proofs.Results
import PoseFilter.Proofs.Transitions
import PoseFilter.Mat.Jacobi

/-!
# Inputs in order

A tracker whose time is finite and whose covariance has the right shape refuses an input for three
reasons only: it is for another body, it is older than the state, or it is not a finite time away
(`Tracker.refusal`).  A refused input leaves the whole tracker as it was; any other brings it to the
time of the input.  So along every run, whatever is refused, rejected or reset on the way, the time
stays finite and never decreases, the covariance keeps its shape, and two errors that guard against
misuse of the layers below are never seen.

* `Clock` : what is asked of the numbers that times are made of; doubles have it.
* `external_propose`, `corrected_cases` : a correction of the right shape fails for reasons of its
  caller and keeps the shape.
* `Tracker.process_cases` : an input is refused or taken up; `Tracker.processAll_orderly` : what
  every run keeps.
* `Tracker.sequencing` : both together, for doubles.
-/

namespace PoseFilter

open FilterState

/-! ### Times -/

/-- Numbers that can tell the time: comparisons and differences from a finite time behave. -/
class Clock (α : Type) [Scalar α] : Prop where
  le_self : ∀ {a : α}, Scalar.isFinite a = true → a ≤ a
  not_lt_of_lt : ∀ {a b : α}, Scalar.isFinite a = true → a < b → ¬b < a
  le_of_not_lt : ∀ {a b : α}, Scalar.isFinite a = true → Scalar.isFinite b = true → ¬a < b → b ≤ a
  le_trans : ∀ {a b c : α}, Scalar.isFinite a = true → Scalar.isFinite b = true →
    Scalar.isFinite c = true → a ≤ b → b ≤ c → a ≤ c
  not_sub_neg : ∀ {a b : α}, Scalar.isFinite b = true → ¬a < b → ¬a - b < 0
  isFinite_of_sub : ∀ {a b : α}, Scalar.isFinite b = true → Scalar.isFinite (a - b) = true →
    Scalar.isFinite a = true

instance : Clock Float where
  le_self := fun ha => (Doubles.le_iff_number ha ha).2 le_rfl
  not_lt_of_lt := Doubles.not_lt_of_lt
  le_of_not_lt := fun ha hb h =>
    (Doubles.le_iff_number hb ha).2 (not_lt.1 (mt (Doubles.lt_iff_number ha hb).2 h))
  le_trans := fun ha hb hc hab hbc => (Doubles.le_iff_number ha hc).2
    (((Doubles.le_iff_number ha hb).1 hab).trans ((Doubles.le_iff_number hb hc).1 hbc))
  not_sub_neg := Doubles.not_sub_neg
  isFinite_of_sub := fun _ h => (Doubles.isFinite_of_sub h).1

/-! ### Errors -/

/-- The errors that guard against misuse of the layers: a step back in time, and a shape that does
not fit. -/
def FilterError.Internal {α : Type} : FilterError α → Prop
  | negativeTimeStep _ => True
  | dimensionMismatch _ _ => True
  | _ => False

/-- Every error of a computation is for its caller. -/
def External {α β : Type} (x : Except (FilterError α) β) : Prop := ∀ e, x = .error e → ¬e.Internal

theorem external_ok {α β : Type} (b : β) : External (.ok b : Except (FilterError α) β) :=
  fun _ h => nomatch h

theorem External.bind {α β γ : Type} {x : Except (FilterError α) β}
    {f : β → Except (FilterError α) γ} (hx : External x) (hf : ∀ b, x = .ok b → External (f b)) :
    External (x >>= f) := by
  intro e h
  rcases bind_eq_error_iff.1 h with herror | ⟨b, hb, herror⟩
  · exact hx e herror
  · exact hf b hb e herror

section Correct

variable {α : Type} [Spectral α]

theorem external_weights (params : UnscentedParams α) (n : Nat) : External (params.weights n) := by
  intro e h
  unfold UnscentedParams.weights at h
  dsimp only at h
  split_ifs at h <;> cases h <;> exact id

theorem external_generate {s : PoseState α} {p : Mat α PoseState.dim PoseState.dim}
    (hp : s.covariance = p.toGrid) (params : UnscentedParams α) :
    External (SigmaPoints.generate s params) := by
  have hcov : covariance? s = .ok p := covariance?_of_toGrid (S := PoseState α) hp
  refine (external_weights params _).bind fun w _ => ?_
  rw [hcov]
  cases hfin : p.isFinite with
  | false =>
    intro e h
    simp only [bind, Except.bind, hfin] at h
    cases h
    exact id
  | true =>
    intro e h
    simp only [bind, Except.bind, hfin] at h
    cases hroot : (p.scale w.spread).squareRoot? with
    | none =>
      simp only [hroot] at h
      cases h
      exact id
    | some root =>
      simp only [hroot] at h
      cases h

theorem external_checkNoise {m : Nat} (r : Mat α m m) :
    External (Proposal.checkNoise m r.toGrid) := by
  intro e h
  simp only [Proposal.checkNoise, Grid.asMat?_toGrid] at h
  split_ifs at h
  cases h
  exact id

theorem external_ofDeviations {n m : Nat} (r : Mat α m m) (w : SigmaWeights α n)
    (offsets : Mat α (2 * n + 1) n) (deviations : Mat α (2 * n + 1) m) (residual : Column α m) :
    External (Proposal.ofDeviations r w offsets deviations residual) := by
  intro e h
  unfold Proposal.ofDeviations at h
  dsimp only at h
  split_ifs at h
  · cases h
    exact id
  · split at h
    · cases h
      exact id
    · cases h

/-- **A correction of the right shape fails only for reasons of its caller.** -/
theorem external_propose {s : PoseState α} {p : Mat α PoseState.dim PoseState.dim}
    (hp : s.covariance = p.toGrid) (r : Reading α) (params : UnscentedParams α) :
    External (propose s r.model params) := by
  unfold propose
  rw [r.covariance_model]
  refine (external_checkNoise r.noise).bind fun noise _ => ?_
  refine (external_generate hp params).bind fun sigma _ => ?_
  have hlength : ∀ a b, Proposal.checkLength r.model.dim (r.model.difference a b) =
      pure ⟨r.model.difference a b, r.size_difference a b⟩ := fun a b =>
    Proposal.checkLength_of_size (r.size_difference a b)
  simp only [hlength, Vector.mapM_pure, MeasurementModel.residual]
  exact external_ofDeviations _ _ _ _ _

theorem rejection_external {m : Nat} {c : Correction (PoseState α) α PoseState.dim m}
    (hc : External c.proposal) {e : FilterError α} (h : c.rejection = some e) : ¬e.Internal := by
  unfold Correction.rejection at h
  cases hq : c.proposal with
  | error e' =>
    rw [hq] at h
    cases h
    exact hc e hq
  | ok q =>
    simp only [hq] at h
    split_ifs at h
    cases h
    exact id

theorem corrected_cases {m : Nat} {c : Correction (PoseState α) α PoseState.dim m}
    {p : Mat α PoseState.dim PoseState.dim} (hp : c.prior.covariance = p.toGrid)
    (hc : External c.proposal) :
    External c.corrected ∧ ∀ s, c.corrected = .ok s →
      ∃ p' : Mat α PoseState.dim PoseState.dim, s.covariance = p'.toGrid := by
  cases hq : c.proposal with
  | error e =>
    have herror : c.corrected = .error e := by
      rw [Correction.corrected, hq]
      rfl
    rw [herror]
    exact ⟨fun e' h => by cases h; exact hc e hq, fun s h => by cases h⟩
  | ok q =>
    rw [Correction.corrected_of_proposal (S := PoseState α) hp hq]
    split_ifs
    · refine ⟨external_ok _, fun s h => ?_⟩
      cases h
      exact ⟨_, rfl⟩
    · exact ⟨fun e h => by cases h; exact id, fun s h => by cases h⟩
    · exact ⟨fun e h => by cases h; exact id, fun s h => by cases h⟩

end Correct

/-! ### Orderly trackers -/

namespace Tracker

section Generic

variable {α : Type} [Spectral α]

/-- A tracker with a finite time and a covariance over the tangent space. -/
structure Orderly (t : Tracker α) : Prop where
  finite : Scalar.isFinite t.timestamp = true
  shape : ∃ p : Mat α PoseState.dim PoseState.dim, t.state.covariance = p.toGrid

/-- Why an input is refused, if it is. -/
def refusal (t : Tracker α) : Input α → Option (FilterError α)
  | .timeStep time =>
    if t.timestamp < time ∧ ¬Scalar.isFinite (time - t.timestamp) then
      some (.invalidParameter "dt" (.notFinite (time - t.timestamp)))
    else none
  | .measurement message =>
    if message.body ≠ t.handle then
      some (.invalidParameter "body_handle" (.misaddressed message.body t.handle))
    else if message.timestamp < t.timestamp then
      some (.outOfOrder message.timestamp t.timestamp)
    else if ¬Scalar.isFinite (message.timestamp - t.timestamp) then
      some (.invalidParameter "dt" (.notFinite (message.timestamp - t.timestamp)))
    else none

/-- The time of a tracker after an input that is not refused. -/
def timeAfter (t : Tracker α) : Input α → α
  | .timeStep time => Scalar.greater t.timestamp time
  | .measurement message => message.timestamp

theorem correctBy_orderly {t : Tracker α} (ht : t.Orderly) (r : Reading α) :
    (t.correctBy r).tracker.timestamp = t.timestamp ∧ (t.correctBy r).tracker.Orderly ∧
      ∀ e, (t.correctBy r).result = .rejectedInvalid e → ¬e.Internal := by
  obtain ⟨p, hp⟩ := ht.shape
  set c := Correction.begin t.state r.model t.config.params with hc
  have hproposal : External c.proposal := external_propose hp r t.config.params
  obtain ⟨hexternal, hshape⟩ := corrected_cases (c := c) hp hproposal
  have hcounted := counted_correct t r.model
  have hstate : ∃ p' : Mat α PoseState.dim PoseState.dim,
      (t.attempt r.model).2.1.covariance = p'.toGrid ∧
        ∀ e, (t.attempt r.model).1 = .rejectedInvalid e → ¬e.Internal := by
    obtain ⟨e, warnings, hcause, heq⟩ | ⟨d, heq⟩ | ⟨d, s, hs, heq⟩ := attempt_cases hc.symm
    · refine ⟨p, by rw [heq]; exact hp, fun e' he' => ?_⟩
      rw [heq] at he'
      cases he'
      rcases hcause with hr | hr
      · exact rejection_external hproposal hr
      · exact hexternal e hr
    · exact ⟨p, by rw [heq]; exact hp, fun e' he' => by rw [heq] at he'; cases he'⟩
    · obtain ⟨p', hp'⟩ := hshape s hs
      exact ⟨p', by rw [heq]; exact hp', fun e' he' => by rw [heq] at he'; cases he'⟩
  obtain ⟨p', hp', herror⟩ := hstate
  rw [correctBy_eq]
  refine ⟨hcounted.timestamp, ⟨by rw [hcounted.timestamp]; exact ht.finite, ?_⟩, herror⟩
  -- a reset writes a covariance of the right shape too
  rcases hcounted.state with hkept | ⟨variance, hreset⟩
  · exact ⟨p', by rw [hkept]; exact hp'⟩
  · exact ⟨Mat.scalar PoseState.dim variance, by rw [hreset]; rfl⟩

variable [Clock α]

theorem foreseen_eq {t : Tracker α} (ht : t.Orderly) {time : α} (h : ¬time < t.timestamp) :
    (Scalar.isFinite (time - t.timestamp) = true ∧
      ∃ s, t.foreseen time = .ok s ∧ (t.advancedTo time s).Orderly) ∨
    (Scalar.isFinite (time - t.timestamp) = false ∧ t.foreseen time =
      .error (.invalidParameter "dt" (.notFinite (time - t.timestamp)))) := by
  obtain ⟨p, hp⟩ := ht.shape
  have hpredicted := predicted_of_toGrid hp t.config.motion (time - t.timestamp)
  rw [if_neg (Clock.not_sub_neg ht.finite h)] at hpredicted
  cases hdt : Scalar.isFinite (time - t.timestamp) with
  | true =>
    rw [hdt, if_pos rfl] at hpredicted
    exact .inl ⟨rfl, _, hpredicted, Clock.isFinite_of_sub ht.finite hdt, _, rfl⟩
  | false =>
    rw [hdt, if_neg Bool.false_ne_true] at hpredicted
    exact .inr ⟨rfl, hpredicted⟩

/-- What an input comes to: it is refused and nothing happens, or it is taken up and the tracker is
orderly at the time of the input. -/
theorem process_cases {t : Tracker α} (ht : t.Orderly) (input : Input α) :
    (∃ e, t.refusal input = some e ∧ ¬e.Internal ∧ t.process input = ⟨.error e, t, []⟩) ∨
    (t.refusal input = none ∧ (∃ outcome, (t.process input).result = .ok outcome ∧
        ∀ e, outcome = .rejectedInvalid e → ¬e.Internal) ∧
      (t.process input).tracker.timestamp = t.timeAfter input ∧
      (t.process input).tracker.Orderly) := by
  have htransition := t.process_transition input
  generalize t.process input = reply at htransition ⊢
  cases htransition with
  | @idle time h =>
    refine .inr ⟨if_neg fun hc => h hc.1, ⟨_, rfl, fun e he => nomatch he⟩, ?_, ht⟩
    rw [timeAfter, Scalar.greater, if_neg h, if_pos (Clock.le_self ht.finite)]
  | @misaddressed message h => exact .inl ⟨_, if_pos h, id, rfl⟩
  | stale _ hconcerns h =>
    cases input with
    -- a time step is looked at only if it is ahead, so it cannot be stale
    | timeStep time => exact absurd h (Clock.not_lt_of_lt ht.finite hconcerns)
    | measurement message =>
      refine .inl ⟨_, ?_, id, rfl⟩
      rw [refusal, if_neg fun hne => hne hconcerns]
      exact if_pos h
  | unforeseen _ hconcerns h he =>
    -- the step is not negative, so there is one way left to fail
    obtain ⟨-, s, hs, -⟩ | ⟨hdt, herror⟩ := foreseen_eq ht h
    · cases hs.symm.trans he
    · cases Except.error.inj (herror.symm.trans he)
      have hnot : ¬Scalar.isFinite (input.time - t.timestamp) = true := by
        rw [hdt]
        exact Bool.false_ne_true
      refine .inl ⟨_, ?_, id, rfl⟩
      cases input with
      | timeStep time => exact if_pos ⟨hconcerns, hnot⟩
      | measurement message =>
        rw [refusal, if_neg fun hne => hne hconcerns]
        exact (if_neg h).trans (if_pos hnot)
  | @advanced time s hahead h hs =>
    obtain ⟨hdt, s', hs', horderly⟩ | ⟨-, herror⟩ := foreseen_eq ht h
    · cases Except.ok.inj (hs.symm.trans hs')
      refine .inr ⟨if_neg fun hc => hc.2 hdt, ⟨_, rfl, fun e he => nomatch he⟩, ?_, horderly⟩
      rw [timeAfter, Scalar.greater, if_pos hahead]
      rfl
    · cases hs.symm.trans herror
  | @corrected message s hbody h hs =>
    obtain ⟨hdt, s', hs', horderly⟩ | ⟨-, herror⟩ := foreseen_eq ht h
    · cases Except.ok.inj (hs.symm.trans hs')
      obtain ⟨htime, hafter, hexternal⟩ := correctBy_orderly horderly message.reading
      refine .inr ⟨?_, ⟨_, rfl, hexternal⟩, htime, hafter⟩
      rw [refusal, if_neg fun hne => hne hbody, if_neg h, if_neg fun hne => hne hdt]
    · cases hs.symm.trans herror

theorem process_of_refusal {t : Tracker α} (ht : t.Orderly) {input : Input α} {e : FilterError α}
    (h : t.refusal input = some e) : t.process input = ⟨.error e, t, []⟩ := by
  obtain ⟨e', hrefusal, -, hprocess⟩ | ⟨hnone, -⟩ := process_cases ht input
  · cases Option.some.inj (hrefusal.symm.trans h)
    exact hprocess
  · cases hnone.symm.trans h

theorem refusal_of_error {t : Tracker α} (ht : t.Orderly) {input : Input α} {e : FilterError α}
    (h : (t.process input).result = .error e) : t.refusal input = some e := by
  obtain ⟨e', hrefusal, -, hprocess⟩ | ⟨-, ⟨outcome, hok, -⟩, -⟩ := process_cases ht input
  · rw [hprocess] at h
    cases h
    exact hrefusal
  · cases hok.symm.trans h

theorem timestamp_of_ok {t : Tracker α} (ht : t.Orderly) {input : Input α} {outcome : Outcome α}
    (h : (t.process input).result = .ok outcome) :
    (t.process input).tracker.timestamp = t.timeAfter input := by
  obtain ⟨e, -, -, hprocess⟩ | ⟨-, -, htime, -⟩ := process_cases ht input
  · rw [hprocess] at h
    cases h
  · exact htime

theorem le_timeAfter {t : Tracker α} (ht : t.Orderly) {input : Input α}
    (h : t.refusal input = none) (hfinite : Scalar.isFinite (t.timeAfter input) = true) :
    t.timestamp ≤ t.timeAfter input := by
  cases input with
  | timeStep time =>
    by_cases hahead : t.timestamp < time
    · have hgreater : t.timeAfter (.timeStep time) = time := if_pos hahead
      rw [hgreater] at hfinite ⊢
      exact Clock.le_of_not_lt hfinite ht.finite (Clock.not_lt_of_lt ht.finite hahead)
    · have hgreater : t.timeAfter (.timeStep time) = t.timestamp :=
        (if_neg hahead).trans (if_pos (Clock.le_self ht.finite))
      rw [hgreater]
      exact Clock.le_self ht.finite
  | measurement message =>
    have hlate : ¬message.timestamp < t.timestamp := by
      intro hlt
      simp only [refusal] at h
      split_ifs at h
    exact Clock.le_of_not_lt hfinite ht.finite hlate

/-- Nothing that is reported is internal, be it an error or the reason of a rejection. -/
def Reported (result : Except (FilterError α) (Outcome α)) : Prop :=
  ∀ e, result = .error e ∨ result = .ok (.rejectedInvalid e) → ¬e.Internal

/-- **One input** keeps a tracker orderly and does not turn its time back. -/
theorem process_orderly {t : Tracker α} (ht : t.Orderly) (input : Input α) :
    (t.process input).tracker.Orderly ∧ t.timestamp ≤ (t.process input).tracker.timestamp ∧
      Reported (t.process input).result := by
  obtain ⟨e, -, hexternal, hprocess⟩ | ⟨hnone, ⟨outcome, hok, hexternal⟩, htime, horderly⟩ :=
    process_cases ht input
  · rw [hprocess]
    refine ⟨ht, Clock.le_self ht.finite, ?_⟩
    rintro e' (h | h)
    · cases h
      exact hexternal
    · cases h
  · refine ⟨horderly, ?_, ?_⟩
    · have hfinite := horderly.finite
      rw [htime] at hfinite ⊢
      exact le_timeAfter ht hnone hfinite
    · rw [hok]
      rintro e' (h | h)
      · cases h
      · exact hexternal e' (Except.ok.inj h)

/-- **Every run** keeps a tracker orderly and does not turn its time back. -/
theorem processAll_orderly {t : Tracker α} (ht : t.Orderly) (inputs : List (Input α)) :
    (t.processAll inputs).2.Orderly ∧ t.timestamp ≤ (t.processAll inputs).2.timestamp ∧
      ∀ result ∈ (t.processAll inputs).1, Reported result := by
  induction inputs generalizing t with
  | nil => exact ⟨ht, Clock.le_self ht.finite, fun _ hmem => nomatch hmem⟩
  | cons input rest ih =>
    obtain ⟨hstep, hle, hreported⟩ := process_orderly ht input
    obtain ⟨hlast, hle', hreported'⟩ := ih hstep
    refine ⟨hlast, Clock.le_trans ht.finite hstep.finite hlast.finite hle hle', ?_⟩
    intro result hmem
    rcases List.mem_cons.1 hmem with rfl | hmem
    · exact hreported
    · exact hreported' result hmem

end Generic

/-- **Inputs are taken in order.**  For every tracker with a finite time and a covariance over the
tangent space: an input ends in an error exactly as `refusal` says, and then nothing about the
tracker has changed; any other input brings the tracker to its own time, a time step never back; and
a time step that is not ahead changes nothing.  Along every run the time stays finite and never
decreases, the covariance keeps its shape, and neither a step back in time nor a mismatch of
dimensions is ever reported. -/
theorem sequencing (t : Tracker Float) (hfinite : t.timestamp.isFinite = true)
    {p : Mat Float PoseState.dim PoseState.dim} (hshape : t.state.covariance = p.toGrid) :
    (∀ input e, (t.process input).result = .error e ↔ t.refusal input = some e) ∧
    (∀ input e, (t.process input).result = .error e → (t.process input).tracker = t) ∧
    (∀ message outcome, (t.process (.measurement message)).result = .ok outcome →
      (t.process (.measurement message)).tracker.timestamp = message.timestamp) ∧
    (∀ time outcome, (t.process (.timeStep time)).result = .ok outcome →
      (t.process (.timeStep time)).tracker.timestamp = Scalar.greater t.timestamp time) ∧
    (∀ time, ¬t.timestamp < time → t.process (.timeStep time) = ⟨.ok .predicted, t, []⟩) ∧
    ∀ inputs, ∀ reached, reached = (t.processAll inputs).2 →
      reached.timestamp.isFinite = true ∧ t.timestamp ≤ reached.timestamp ∧
      (∀ input, reached.timestamp ≤ (reached.process input).tracker.timestamp) ∧
      (∃ p' : Mat Float PoseState.dim PoseState.dim, reached.state.covariance = p'.toGrid) ∧
      ∀ result ∈ (t.processAll inputs).1, ∀ e,
        result = .error e ∨ result = .ok (.rejectedInvalid e) →
          (∀ dt, e ≠ .negativeTimeStep dt) ∧
            ∀ expected actual, e ≠ .dimensionMismatch expected actual := by
  have ht : t.Orderly := ⟨hfinite, p, hshape⟩
  refine ⟨fun input e => ⟨refusal_of_error ht, fun h => by rw [process_of_refusal ht h]⟩,
    fun input e h => by rw [process_of_refusal ht (refusal_of_error ht h)],
    fun message outcome h => timestamp_of_ok ht h, fun time outcome h => timestamp_of_ok ht h,
    fun time h => if_neg h, ?_⟩
  rintro inputs _ rfl
  obtain ⟨hreached, hle, hreported⟩ := processAll_orderly ht inputs
  refine ⟨hreached.finite, hle, fun input => (process_orderly hreached input).2.1, hreached.shape, ?_⟩
  intro result hmem e he
  have hexternal := hreported result hmem e he
  refine ⟨fun dt h => ?_, fun expected actual h => ?_⟩
  · exact hexternal (h ▸ trivial)
  · exact hexternal (h ▸ trivial)

/-- A standard tracker refuses a message for another body and one from the past, and keeps a finite
time whatever it is given. -/
theorem sequencing_standard :
    let t : Tracker Float := ⟨⟨1⟩, TrackerConfig.standard, PoseState.initial, 5, 0, 0, 0, 0⟩
    (t.process (.measurement ⟨⟨2⟩, ⟨7⟩, 6, .position ⟨1, 2, 3⟩ (Mat.scalar 3 1)⟩)).result =
        .error (.invalidParameter "body_handle" (.misaddressed ⟨2⟩ ⟨1⟩)) ∧
      (t.process (.measurement ⟨⟨1⟩, ⟨7⟩, 4, .position ⟨1, 2, 3⟩ (Mat.scalar 3 1)⟩)).result =
        .error (.outOfOrder 4 5) ∧
      ∀ inputs, (t.processAll inputs).2.timestamp.isFinite = true := by
  intro t
  have hfinite : t.timestamp.isFinite = true := by decide
  obtain ⟨herror, -, -, -, -, hrun⟩ := sequencing t hfinite rfl
  have hpast : (4 : Float) < 5 := by decide
  exact ⟨(herror _ _).2 rfl, (herror _ _).2 (if_pos hpast), fun inputs => (hrun inputs _ rfl).1⟩

end Tracker

end PoseFilter
