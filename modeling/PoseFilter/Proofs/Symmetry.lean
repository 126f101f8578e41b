import Mathlib.Data.List.Forall2
import PoseFilter.Proofs.Results
import PoseFilter.Proofs.Transitions

/-!
# Symmetries of the filter

A change `φ` of the mean of a state is a symmetry when every operation of the filter on states
commutes with it and the covariance is left alone (`FilterState.Symmetry`).  The filter then does not
notice it: a changed state has changed sigma points, and as long as the differences of predicted
values and the residual stay the same, the proposal is the same and what is written is the change of
what would have been written.  Everything here holds over any type of numbers.

* `predicted_map`, `propose_map`, `Correction.corrected_map` : prediction and correction of a changed
  state.
* `Reading.Matches` : a reading that says of the changed state what another says of the state.
* `Tracker.process_mapState` : one input; `Tracker.processAll_mapState` : a run.
-/

namespace PoseFilter

open FilterState

/-- A change of the mean that commutes with every operation on states. -/
structure FilterState.Symmetry {S α : Type} [FilterState S α] (φ : S → S) : Prop where
  covariance_eq : ∀ s, covariance (φ s) = covariance s
  retract_eq : ∀ s δ, retract (φ s) δ = φ (retract s δ)
  withCovariance_eq : ∀ s p, withCovariance (φ s) p = φ (withCovariance s p)
  meanIsFinite_eq : ∀ s, meanIsFinite (φ s) = meanIsFinite s

section General

variable {S V α : Type} [FilterState S α] {φ : S → S}

theorem FilterState.Symmetry.covariance?_eq (hφ : FilterState.Symmetry φ) (s : S) :
    covariance? (φ s) = covariance? s := by
  simp only [covariance?, hφ.covariance_eq]

/-! ### Prediction -/

theorem predicted_map [Scalar α] (hφ : FilterState.Symmetry φ) {law : MotionModel S α}
    (hlaw : ∀ s dt, law.advance (φ s) dt = (φ (law.advance s dt).1, (law.advance s dt).2))
    (s : S) (dt : α) : predicted (φ s) law dt = (predicted s law dt).map φ := by
  unfold predicted
  rw [hφ.covariance?_eq, hlaw]
  by_cases hneg : dt < 0
  · simp only [if_pos hneg]
    rfl
  · cases hfin : Scalar.isFinite dt with
    | false =>
      simp only [if_neg hneg]
      rfl
    | true =>
      simp only [if_neg hneg, Bool.not_true, Bool.false_eq_true, if_false, bind, Except.bind]
      cases covariance? s with
      | error e => rfl
      | ok p =>
        cases (law.advance s dt).2.asMat? (dim S) (dim S) with
        | none => rfl
        | some q =>
          simp only [hφ.covariance?_eq]
          cases covariance? (law.advance s dt).1 with
          | error e => rfl
          | ok p' => exact congrArg Except.ok (hφ.withCovariance_eq _ _)

/-! ### Correction -/

variable [Spectral α]

/-- The same sigma points with every point changed. -/
def SigmaPoints.mapPoints {n : Nat} (φ : S → S) (sigma : SigmaPoints S α n) : SigmaPoints S α n :=
  { sigma with points := sigma.points.map φ }

namespace SigmaPoints

theorem generate_map (hφ : FilterState.Symmetry φ) (s : S) (params : UnscentedParams α) :
    generate (φ s) params = (generate s params).map (mapPoints φ) := by
  unfold generate
  rw [hφ.covariance?_eq]
  cases params.weights (dim S) with
  | error e => rfl
  | ok w =>
    cases covariance? s with
    | error e => rfl
    | ok p =>
      simp only [bind, Except.bind]
      cases p.isFinite with
      | false => rfl
      | true =>
        cases (p.scale w.spread).squareRoot? with
        | none => rfl
        | some root =>
          have hpoints : (Vector.ofFn fun i : Fin (2 * dim S + 1) =>
              if i.val = 0 then φ s else retract (φ s) ((offsetsOf root).row i)) =
              (Vector.ofFn fun i : Fin (2 * dim S + 1) =>
                if i.val = 0 then s else retract s ((offsetsOf root).row i)).map φ := by
            rw [Vector.map_ofFn]
            congr 1
            funext i
            simp only [hφ.retract_eq, Function.comp_apply, apply_ite φ]
          simp only [Bool.not_true, Bool.false_eq_true, if_false, hpoints]
          rfl

theorem points_zero_of_generate {s : S} {params : UnscentedParams α}
    {sigma : SigmaPoints S α (dim S)} (h : generate s params = .ok sigma)
    (hpos : 0 < 2 * dim S + 1) : sigma.points[0] = s := by
  obtain ⟨w, -, h⟩ := bind_eq_ok_iff.1 h
  obtain ⟨p, -, h⟩ := bind_eq_ok_iff.1 h
  cases hfin : p.isFinite with
  | false =>
    rw [hfin] at h
    cases h
  | true =>
    cases hroot : (p.scale w.spread).squareRoot? with
    | none =>
      simp only [hfin, hroot] at h
      cases h
    | some root =>
      simp only [hfin, hroot] at h
      cases h
      simp

end SigmaPoints

/-- **The proposal does not notice a symmetry** as long as the differences of predicted values, the
noise and the residual stay the same. -/
theorem propose_map (hφ : FilterState.Symmetry φ) {model : MeasurementModel S V α} {s : S}
    {value : V} (hnoise : model.covariance (φ s) = model.covariance s)
    (hdifference : ∀ x y, model.difference (model.predict (φ x)) (model.predict (φ y)) =
      model.difference (model.predict x) (model.predict y))
    (hresidual : model.difference value (model.predict (φ s)) = model.residual (model.predict s))
    (params : UnscentedParams α) :
    propose (φ s) { model with measured := value } params = propose s model params := by
  unfold propose
  simp only [hnoise, SigmaPoints.generate_map hφ]
  cases Proposal.checkNoise model.dim (model.covariance s) with
  | error e => rfl
  | ok r =>
    cases hg : SigmaPoints.generate s params with
    | error e => rfl
    | ok sigma =>
      have hfirst := SigmaPoints.points_zero_of_generate hg (Nat.succ_pos _)
      simp only [Except.map, bind, Except.bind, SigmaPoints.mapPoints, Vector.mapM_map,
        Vector.getElem_map, hfirst, MeasurementModel.residual, Function.comp_def, hdifference,
        hresidual]

theorem Correction.corrected_map (hφ : FilterState.Symmetry φ) {m : Nat} (s : S)
    (proposal : Except (FilterError α) (Proposal α (dim S) m)) :
    (⟨φ s, proposal⟩ : Correction S α (dim S) m).corrected =
      (⟨s, proposal⟩ : Correction S α (dim S) m).corrected.map φ := by
  unfold corrected
  cases proposal with
  | error e => rfl
  | ok q =>
    simp only [bind, Except.bind, hφ.retract_eq, hφ.meanIsFinite_eq, hφ.covariance?_eq]
    cases q.change.isFinite with
    | false => rfl
    | true =>
      cases meanIsFinite (retract s q.change) with
      | false => rfl
      | true =>
        cases covariance? s with
        | error e => rfl
        | ok p =>
          cases hpsd : (correctedCovariance p q).isPositiveSemidefinite with
          | false =>
            simp only [hpsd]
            rfl
          | true =>
            simp only [hpsd]
            exact congrArg Except.ok (hφ.withCovariance_eq _ _)

end General

/-! ### Trackers -/

/-- A symmetry of the state of a rigid body: it commutes with the motion as well. -/
structure PoseState.Symmetry {α : Type} [Scalar α] (φ : PoseState α → PoseState α) : Prop
    extends FilterState.Symmetry φ where
  advanceMean_eq : ∀ s dt a, Motion.advanceMean (φ s) dt a = φ (Motion.advanceMean s dt a)

theorem Motion.predicted_map {α : Type} [Scalar α] {φ : PoseState α → PoseState α}
    (hφ : PoseState.Symmetry φ) (m : Motion α) (s : PoseState α) (dt : α) :
    predicted (φ s) m.toModel dt = (predicted s m.toModel dt).map φ := by
  refine PoseFilter.predicted_map hφ.toSymmetry (fun s dt => ?_) s dt
  have hcovariance : (φ s).covariance = s.covariance := hφ.covariance_eq s
  change ({ advanceMean (φ s) dt (m.attenuation dt) with
    covariance := carry (φ s).covariance dt (m.attenuation dt) }, _) = _
  rw [hφ.advanceMean_eq, hcovariance]
  exact congrArg (·, _) (hφ.withCovariance_eq _ _)

namespace Reading

variable {α : Type}

/-- The same kind of reading with the same noise and another value. -/
def withValue : (r : Reading α) → r.Value → Reading α
  | orientation _ noise, value => orientation value noise
  | position _ noise, value => position value noise
  | pose _ noise, value => pose value noise
  | angularVelocity _ noise, value => angularVelocity value noise

/-- A reading that says of the changed state what `r` says of the state. -/
inductive Matches [Scalar α] (φ : PoseState α → PoseState α) (s : PoseState α) (r : Reading α) :
    Reading α → Prop
  | intro {value : r.Value} :
      (∀ x y, r.model.difference (r.model.predict (φ x)) (r.model.predict (φ y)) =
        r.model.difference (r.model.predict x) (r.model.predict y)) →
      r.model.difference value (r.model.predict (φ s)) = r.model.residual (r.model.predict s) →
      Matches φ s r (r.withValue value)

end Reading

/-- The same tracker with its state changed. -/
def Tracker.mapState {α : Type} (φ : PoseState α → PoseState α) (t : Tracker α) : Tracker α :=
  { t with state := φ t.state }

/-- The same reply with the state of the tracker changed. -/
def Reply.mapState {α β : Type} (φ : PoseState α → PoseState α) (r : Reply α β) : Reply α β :=
  { r with tracker := r.tracker.mapState φ }

namespace Tracker

variable {α : Type} [Spectral α] {φ : PoseState α → PoseState α}

/-- An input that says to the changed tracker what another says to the tracker.  Readings have to
match at the time when they are used. -/
inductive Matches (φ : PoseState α → PoseState α) (t : Tracker α) : Input α → Input α → Prop
  | timeStep (time : α) : Matches φ t (.timeStep time) (.timeStep time)
  | measurement {message : Message α} {reading : Reading α} :
      (message.body = t.handle → ∀ s, t.foreseen message.timestamp = .ok s →
        message.reading.Matches φ s reading) →
      Matches φ t (.measurement message) (.measurement { message with reading })

theorem foreseen_mapState (hφ : PoseState.Symmetry φ) (t : Tracker α) (time : α) :
    (t.mapState φ).foreseen time = (t.foreseen time).map φ :=
  Motion.predicted_map hφ _ _ _

theorem predictionEvents_map (hφ : PoseState.Symmetry φ) (dt : α) (s : PoseState α) :
    predictionEvents dt (φ s) = predictionEvents dt s := by
  have hmean : (φ s).meanIsFinite = s.meanIsFinite := hφ.meanIsFinite_eq s
  have hcovariance : FilterState.covarianceIsFinite (φ s) = FilterState.covarianceIsFinite s :=
    congrArg Grid.isFinite (hφ.covariance_eq s)
  rw [predictionEvents, hmean, hcovariance, predictionEvents]

theorem predictTo_mapState (hφ : PoseState.Symmetry φ) (t : Tracker α) (time : α) :
    (t.mapState φ).predictTo time = (t.predictTo time).mapState φ := by
  by_cases hlt : time < t.timestamp
  · have hlt' : time < (t.mapState φ).timestamp := hlt
    rw [predictTo_of_lt hlt, predictTo_of_lt hlt']
    rfl
  · have hlt' : ¬time < (t.mapState φ).timestamp := hlt
    have hforeseen := foreseen_mapState hφ t time
    cases hs : t.foreseen time with
    | error e =>
      rw [hs] at hforeseen
      rw [predictTo_of_foreseen_error hlt hs, predictTo_of_foreseen_error hlt' hforeseen]
      rfl
    | ok s =>
      rw [hs] at hforeseen
      rw [predictTo_of_foreseen_ok hlt hs, predictTo_of_foreseen_ok hlt' hforeseen,
        predictionEvents_map hφ]
      rfl

theorem resetCovariance_map (hφ : PoseState.Symmetry φ) (s : PoseState α) (variance : α) :
    (φ s).resetCovariance variance = φ (s.resetCovariance variance) :=
  hφ.withCovariance_eq s (PoseState.isotropic variance)

theorem recover_mapState (hφ : PoseState.Symmetry φ) (t : Tracker α) :
    (t.mapState φ).recover = (t.recover.1.mapState φ, t.recover.2) := by
  unfold recover
  by_cases hlimit : 0 < t.config.maxConsecutiveFailures ∧
      t.config.maxConsecutiveFailures ≤ t.consecutiveFailures
  · simp only [if_pos hlimit, mapState, resetCovariance_map hφ]
  · have hlimit' : ¬(0 < (t.mapState φ).config.maxConsecutiveFailures ∧
        (t.mapState φ).config.maxConsecutiveFailures ≤ (t.mapState φ).consecutiveFailures) := hlimit
    simp only [if_neg hlimit, if_neg hlimit']

theorem record_mapState (hφ : PoseState.Symmetry φ) (t : Tracker α) (outcome : Outcome α) :
    (t.mapState φ).record outcome = ((t.record outcome).1.mapState φ, (t.record outcome).2) := by
  cases outcome with
  | predicted => rfl
  | applied d => rfl
  | rejectedOutlier d => rfl
  | rejectedInvalid e =>
    by_cases he : e.originatesInState = true
    · have hrecover := recover_mapState hφ { t with
        rejectedInvalid := t.rejectedInvalid + 1
        consecutiveFailures := t.consecutiveFailures + 1 }
      simp only [record, if_pos he]
      exact congrArg (fun r : Tracker α × List (TrackerEvent α) => (r.1, _ :: r.2)) hrecover
    · simp only [record, if_neg he]
      rfl

section Correct

variable {V : Type} {t : Tracker α} {model : MeasurementModel (PoseState α) V α} {value : V}

theorem attempt_mapState (hφ : PoseState.Symmetry φ)
    (hpropose : propose (φ t.state) { model with measured := value } t.config.params =
      propose t.state model t.config.params) :
    (t.mapState φ).attempt { model with measured := value } =
      ((t.attempt model).1, φ (t.attempt model).2.1, (t.attempt model).2.2) := by
  have hbegin : Correction.begin (t.mapState φ).state { model with measured := value }
      (t.mapState φ).config.params = ⟨φ t.state, propose t.state model t.config.params⟩ :=
    congrArg (Correction.mk (φ t.state)) hpropose
  have hbegin₀ : Correction.begin t.state model t.config.params =
      ⟨t.state, propose t.state model t.config.params⟩ := rfl
  have hcorrected := Correction.corrected_map hφ.toSymmetry t.state
    (propose t.state model t.config.params)
  generalize propose t.state model t.config.params = proposal at hbegin hbegin₀ hcorrected
  -- what is inspected before writing depends on the proposal alone
  cases hr : (⟨t.state, proposal⟩ :
      Correction (PoseState α) α PoseState.dim model.dim).rejection with
  | some e =>
    rw [attempt_of_rejection hbegin hr, attempt_of_rejection hbegin₀ hr]
    rfl
  | none =>
    cases hg : beyondGate t.config.gate (⟨t.state, proposal⟩ :
        Correction (PoseState α) α PoseState.dim model.dim).numbers.mahalanobisSquared with
    | true =>
      rw [attempt_of_beyondGate hbegin hr hg, attempt_of_beyondGate hbegin₀ hr hg]
      rfl
    | false =>
      cases hc : (⟨t.state, proposal⟩ :
          Correction (PoseState α) α PoseState.dim model.dim).corrected with
      | error e =>
        rw [hc] at hcorrected
        rw [attempt_of_uncorrected hbegin hr hg hcorrected, attempt_of_uncorrected hbegin₀ hr hg hc]
        rfl
      | ok s =>
        rw [hc] at hcorrected
        rw [attempt_of_corrected hbegin hr hg hcorrected, attempt_of_corrected hbegin₀ hr hg hc]
        rfl

theorem correct_mapState (hφ : PoseState.Symmetry φ)
    (hpropose : propose (φ t.state) { model with measured := value } t.config.params =
      propose t.state model t.config.params) :
    (t.mapState φ).correct { model with measured := value } = (t.correct model).mapState φ := by
  have hrecord := record_mapState hφ { t with state := (t.attempt model).2.1 } (t.attempt model).1
  unfold correct
  rw [attempt_mapState hφ hpropose]
  change (⟨_, (({ t with state := (t.attempt model).2.1 } : Tracker α).mapState φ |>.record _).1,
    _ ++ (({ t with state := (t.attempt model).2.1 } : Tracker α).mapState φ |>.record _).2⟩ :
      Reply α (Outcome α)) = _
  rw [hrecord]
  rfl

end Correct

theorem correctBy_mapState (hφ : PoseState.Symmetry φ) {t : Tracker α} {r r' : Reading α}
    (h : r.Matches φ t.state r') : (t.mapState φ).correctBy r' = (t.correctBy r).mapState φ := by
  obtain ⟨hdifference, hresidual⟩ := h
  have hnoise : r.model.covariance (φ t.state) = r.model.covariance t.state := by
    rw [r.covariance_model, r.covariance_model]
  have hpropose := propose_map hφ.toSymmetry hnoise hdifference hresidual t.config.params
  have hcorrect := correct_mapState hφ hpropose
  cases r <;> exact hcorrect

/-- **One input** to the changed tracker does what the matching one does to the tracker. -/
theorem process_mapState (hφ : PoseState.Symmetry φ) {t : Tracker α} {input input' : Input α}
    (h : t.Matches φ input input') :
    (t.mapState φ).process input' = (t.process input).mapState φ := by
  cases h with
  | timeStep time =>
    unfold process
    by_cases hahead : t.timestamp < time
    · have hahead' : (t.mapState φ).timestamp < time := hahead
      simp only [if_pos hahead, if_pos hahead', predictTo_mapState hφ]
      cases hp : (t.predictTo time).result <;> simp only [Reply.mapState, hp]
    · have hahead' : ¬(t.mapState φ).timestamp < time := hahead
      simp only [if_neg hahead, if_neg hahead']
      rfl
  | @measurement message reading hmatches =>
    change (t.mapState φ).receive _ = (t.receive message).mapState φ
    unfold receive
    by_cases hbody : message.body = t.handle
    · have hbody' : ¬message.body ≠ (t.mapState φ).handle := fun hne => hne hbody
      simp only [if_neg hbody', if_neg fun hne : message.body ≠ t.handle => hne hbody,
        predictTo_mapState hφ]
      -- the readings match at the time when they are used, which is that of the predicted state
      by_cases hlt : message.timestamp < t.timestamp
      · rw [predictTo_of_lt hlt]
        rfl
      · cases hs : t.foreseen message.timestamp with
        | error e =>
          rw [predictTo_of_foreseen_error hlt hs]
          rfl
        | ok s =>
          have hcorrect := correctBy_mapState hφ (t := t.advancedTo message.timestamp s)
            (hmatches hbody s hs)
          rw [predictTo_of_foreseen_ok hlt hs]
          simp only [Reply.mapState, hcorrect]
    · have hbody' : message.body ≠ (t.mapState φ).handle := hbody
      simp only [if_pos hbody', if_pos hbody]
      rfl

/-- **A run** of the changed tracker on inputs that match is the run of the tracker, with the state
changed at the end. -/
theorem processAll_mapState (hφ : PoseState.Symmetry φ) {P : Tracker α → Input α → Prop}
    {R : Input α → Input α → Prop}
    (hstep : ∀ t input input', P t input → R input input' → t.Matches φ input input')
    {inputs inputs' : List (Input α)} (hinputs : List.Forall₂ R inputs inputs') {t : Tracker α}
    (ht : t.Throughout P inputs) :
    (t.mapState φ).processAll inputs' =
      ((t.processAll inputs).1, (t.processAll inputs).2.mapState φ) := by
  induction hinputs generalizing t with
  | nil => rfl
  | @cons input input' rest rest' hinput _ ih =>
    obtain ⟨hP, hrest⟩ := ht
    have hprocess := process_mapState hφ (hstep t input input' hP hinput)
    have htracker : ((t.process input).mapState φ).tracker = (t.process input).tracker.mapState φ :=
      rfl
    simp only [processAll, hprocess, htracker, ih hrest]
    rfl

end Tracker

end PoseFilter
