import Mathlib.Data.List.Induction
import PoseFilter.Mat.Jacobi
import PoseFilter.Proofs.Results
import PoseFilter.Proofs.Transitions

/-!
# Counters and the history they stand for

A tracker keeps four numbers and no history.  This file keeps the history for it: `Tracker.history`
makes a sequence of calls, inputs and corrections by any models, and writes down each call with the
reply it got, the last one first.  The four numbers can then be read off what was written down.

* `Tracker.Tallied` : what one reply does to the counters; `Tracker.tallied_answer` : every reply does
  that.
* `Tracker.Recounted` : counters that agree with a history; `Tracker.recounted_history` : along every
  sequence of calls they do.
* `Tracker.state_answer` : a call leaves the state that its prediction or its correction made
  (`Tracker.uncounted`), but for a reset; `Tracker.state_of_rejected` : a measurement that is turned away
  makes none.
-/

namespace PoseFilter

/-! ### Calls -/

/-- A call on a tracker: an input, or a correction at the time it is of by a model of any kind. -/
inductive Call (α : Type) : Type 1
  | process (input : Input α)
  | correct {V : Type} (model : MeasurementModel (PoseState α) V α)

/-- A call and the reply it got. -/
structure Entry (α : Type) : Type 1 where
  call : Call α
  reply : Reply α (Except (FilterError α) (Outcome α))

namespace Outcome

variable {α : Type}

def isApplied : Outcome α → Bool
  | applied _ => true
  | _ => false

def isOutlier : Outcome α → Bool
  | rejectedOutlier _ => true
  | _ => false

def isInvalid : Outcome α → Bool
  | rejectedInvalid _ => true
  | _ => false

/-- A correction that could not be made, and the state is to blame. -/
def blamesState : Outcome α → Bool
  | rejectedInvalid e => e.originatesInState
  | _ => false

theorem isApplied_of_rejected {o : Outcome α} (h : o.isOutlier = true ∨ o.isInvalid = true) :
    o.isApplied = false := by
  cases o with
  | applied d => rcases h with h | h <;> cases h
  | _ => rfl

end Outcome

/-- The event tells of a reset of the covariance. -/
def TrackerEvent.isReset {α : Type} : TrackerEvent α → Bool
  | covarianceReset _ _ _ => true
  | _ => false

namespace Reply

variable {α : Type} {reply : Reply α (Except (FilterError α) (Outcome α))}

/-- The call came to an outcome of a kind. -/
def cameTo (reply : Reply α (Except (FilterError α) (Outcome α))) (kind : Outcome α → Bool) : Bool :=
  reply.result.toOption.any kind

/-- The covariance was reset during the call. -/
def resets (reply : Reply α (Except (FilterError α) (Outcome α))) : Bool :=
  reply.events.any TrackerEvent.isReset

/-- The counting of failures in a row starts again with this call. -/
def startsOver (reply : Reply α (Except (FilterError α) (Outcome α))) : Bool :=
  reply.cameTo Outcome.isApplied || reply.resets

theorem isInvalid_of_blamesState (h : reply.cameTo Outcome.blamesState = true) :
    reply.cameTo Outcome.isInvalid = true := by
  obtain ⟨result, tracker, events⟩ := reply
  cases result with
  | error e => cases h
  | ok outcome =>
    cases outcome with
    | rejectedInvalid e => rfl
    | _ => cases h

theorem toNat_cameTo (reply : Reply α (Except (FilterError α) (Outcome α))) :
    (reply.cameTo Outcome.isApplied).toNat + (reply.cameTo Outcome.isOutlier).toNat +
        (reply.cameTo Outcome.isInvalid).toNat =
      (reply.cameTo Outcome.isApplied || reply.cameTo Outcome.isOutlier ||
        reply.cameTo Outcome.isInvalid).toNat := by
  obtain ⟨result, tracker, events⟩ := reply
  cases result with
  | error e => rfl
  | ok outcome => cases outcome <;> rfl

end Reply

/-- A correction was attempted: it was asked for, or a measurement was taken up. -/
def Entry.attempts {α : Type} : Entry α → Bool
  | ⟨.correct _, _⟩ => true
  | ⟨.process (.measurement _), reply⟩ => reply.result.isOk
  | ⟨.process (.timeStep _), _⟩ => false

namespace Tracker

/-! ### Counting -/

section Tally

variable {α : Type}

/-- What a reply does to the counters of a tracker. -/
structure Tallied (t : Tracker α) (reply : Reply α (Except (FilterError α) (Outcome α))) : Prop where
  config : reply.tracker.config = t.config
  applied : reply.tracker.applied = t.applied + (reply.cameTo Outcome.isApplied).toNat
  rejectedOutliers :
    reply.tracker.rejectedOutliers = t.rejectedOutliers + (reply.cameTo Outcome.isOutlier).toNat
  rejectedInvalid :
    reply.tracker.rejectedInvalid = t.rejectedInvalid + (reply.cameTo Outcome.isInvalid).toNat
  consecutiveFailures : reply.tracker.consecutiveFailures =
    if reply.startsOver then 0
    else t.consecutiveFailures + (reply.cameTo Outcome.blamesState).toNat
  resets : reply.resets = true ↔ reply.cameTo Outcome.blamesState = true ∧
    0 < t.config.maxConsecutiveFailures ∧
      t.config.maxConsecutiveFailures ≤ t.consecutiveFailures + 1

/-- Counting a correction that could not be made: the failure is counted first, and the count may be
what calls for a reset. -/
theorem record_rejectedInvalid [Scalar α] (t : Tracker α) (e : FilterError α) :
    t.record (.rejectedInvalid e) =
      if e.originatesInState = true ∧ 0 < t.config.maxConsecutiveFailures ∧
          t.config.maxConsecutiveFailures ≤ t.consecutiveFailures + 1 then
        ({ t with
            state := t.state.resetCovariance t.config.initialCovariance
            rejectedInvalid := t.rejectedInvalid + 1
            consecutiveFailures := 0 },
          [.correctionRejected t.handle e,
            .covarianceReset t.handle (t.consecutiveFailures + 1) t.config.initialCovariance])
      else
        ({ t with
            rejectedInvalid := t.rejectedInvalid + 1
            consecutiveFailures := t.consecutiveFailures + e.originatesInState.toNat },
          [.correctionRejected t.handle e]) := by
  cases he : e.originatesInState with
  | false => simp [record, he]
  | true =>
    by_cases hlimit : 0 < t.config.maxConsecutiveFailures ∧
        t.config.maxConsecutiveFailures ≤ t.consecutiveFailures + 1
    · simp [record, recover, he, hlimit]
    · simp [record, recover, he, hlimit]

theorem tallied_record [Scalar α] (t : Tracker α) (outcome : Outcome α) :
    t.Tallied ⟨.ok outcome, (t.record outcome).1, (t.record outcome).2⟩ := by
  cases outcome with
  | predicted => exact ⟨rfl, rfl, rfl, rfl, rfl, nofun, nofun⟩
  | applied d => exact ⟨rfl, rfl, rfl, rfl, rfl, nofun, nofun⟩
  | rejectedOutlier d => exact ⟨rfl, rfl, rfl, rfl, rfl, nofun, nofun⟩
  | rejectedInvalid e =>
    rw [record_rejectedInvalid]
    split
    next hlimit => exact ⟨rfl, rfl, rfl, rfl, rfl, fun _ => hlimit, fun _ => rfl⟩
    next hlimit => exact ⟨rfl, rfl, rfl, rfl, rfl, nofun, fun h => absurd h hlimit⟩

/-- Counting an outcome does nothing to the state but the reset it tells of. -/
theorem state_record [Scalar α] (t : Tracker α) (outcome : Outcome α) :
    (t.record outcome).1.state =
      if (t.record outcome).2.any TrackerEvent.isReset then
        t.state.resetCovariance t.config.initialCovariance
      else t.state := by
  cases outcome with
  | predicted => rfl
  | applied d => rfl
  | rejectedOutlier d => rfl
  | rejectedInvalid e =>
    rw [record_rejectedInvalid]
    split <;> rfl

theorem Tallied.prepend {t r : Tracker α} {result : Except (FilterError α) (Outcome α)}
    {events : List (TrackerEvent α)} (h : t.Tallied ⟨result, r, events⟩)
    {earlier : List (TrackerEvent α)} (hquiet : earlier.any TrackerEvent.isReset = false) :
    t.Tallied ⟨result, r, earlier ++ events⟩ := by
  have hresets : Reply.resets ⟨result, r, earlier ++ events⟩ = Reply.resets ⟨result, r, events⟩ := by
    simp only [Reply.resets, List.any_append, hquiet, Bool.false_or]
  refine ⟨h.config, h.applied, h.rejectedOutliers, h.rejectedInvalid, ?_, ?_⟩
  · rw [Reply.startsOver, hresets]
    exact h.consecutiveFailures
  · rw [hresets]
    exact h.resets

theorem Tallied.of_moved {t : Tracker α} {time : α} {s : PoseState α}
    {reply : Reply α (Except (FilterError α) (Outcome α))}
    (h : Tallied { t with state := s, timestamp := time } reply) : t.Tallied reply :=
  ⟨h.config, h.applied, h.rejectedOutliers, h.rejectedInvalid, h.consecutiveFailures, h.resets⟩

theorem Tallied.of_error (t : Tracker α) (e : FilterError α) : t.Tallied ⟨.error e, t, []⟩ :=
  ⟨rfl, rfl, rfl, rfl, rfl, nofun, nofun⟩

theorem any_isReset_commitEvents (e : FilterError α) :
    (commitEvents e).any TrackerEvent.isReset = false := by
  cases e <;> rfl

theorem any_isReset_predictionEvents [Scalar α] (dt : α) (s : PoseState α) :
    (predictionEvents dt s).any TrackerEvent.isReset = false := by
  unfold predictionEvents
  cases s.meanIsFinite && FilterState.covarianceIsFinite s <;> rfl

end Tally

/-! ### Sequences of calls -/

variable {α : Type} [Spectral α]

/-- The reply to a call. -/
def answer (t : Tracker α) : Call α → Reply α (Except (FilterError α) (Outcome α))
  | .process input => t.process input
  | .correct model =>
    let r := t.correct model
    ⟨.ok r.result, r.tracker, r.events⟩

/-- Calls one after another: the tracker at the end, and what was answered, the last call first. -/
def history (t : Tracker α) (calls : List (Call α)) : Tracker α × List (Entry α) :=
  calls.foldl (fun h call => ((h.1.answer call).tracker, ⟨call, h.1.answer call⟩ :: h.2)) (t, [])

theorem history_concat (t : Tracker α) (calls : List (Call α)) (call : Call α) :
    t.history (calls ++ [call]) =
      (((t.history calls).1.answer call).tracker,
        ⟨call, (t.history calls).1.answer call⟩ :: (t.history calls).2) := by
  rw [history, List.foldl_append]
  rfl

/-- The tracker at the moment when a call comes to its correction: a message is first brought to its
time. -/
def brought (t : Tracker α) : Call α → Tracker α
  | .process (.measurement message) => (t.predictTo message.timestamp).tracker
  | _ => t

/-- The state that a call makes, before its outcome is counted: the predicted one or what the correction
leaves of it, and the tracker's own where there is nothing to do or the input is refused. -/
def uncounted (t : Tracker α) : Call α → PoseState α
  | .correct model => (t.attempt model).2.1
  | .process (.timeStep time) =>
    if t.timestamp < time then (t.predictTo time).tracker.state else t.state
  | .process (.measurement message) =>
    let p := t.predictTo message.timestamp
    if message.body = t.handle ∧ p.result.isOk = true then
      (p.tracker.attempt message.reading.model).2.1
    else t.state

/-! ### One call -/

section Correct

variable {V : Type} (t : Tracker α) (model : MeasurementModel (PoseState α) V α)

theorem attempt_outcome :
    (t.attempt model).1.isApplied = true ∨
      ((t.attempt model).1.isOutlier = true ∨ (t.attempt model).1.isInvalid = true) ∧
        (t.attempt model).2.1 = t.state := by
  obtain ⟨c, hc⟩ : ∃ c, Correction.begin t.state model t.config.params = c := ⟨_, rfl⟩
  obtain ⟨e, warnings, -, heq⟩ | ⟨d, heq⟩ | ⟨d, s, -, heq⟩ := attempt_cases hc
  · exact .inr ⟨.inr (by rw [heq]; rfl), by rw [heq]⟩
  · exact .inr ⟨.inl (by rw [heq]; rfl), by rw [heq]⟩
  · exact .inl (by rw [heq]; rfl)

theorem any_isReset_attempt : (t.attempt model).2.2.any TrackerEvent.isReset = false := by
  obtain ⟨c, hc⟩ : ∃ c, Correction.begin t.state model t.config.params = c := ⟨_, rfl⟩
  cases hr : c.rejection with
  | some e => rw [attempt_of_rejection hc hr]; rfl
  | none =>
    cases hg : beyondGate t.config.gate c.numbers.mahalanobisSquared with
    | true => rw [attempt_of_beyondGate hc hr hg]; rfl
    | false =>
      cases hs : c.corrected with
      | ok s => rw [attempt_of_corrected hc hr hg hs]; rfl
      | error e =>
        rw [attempt_of_uncorrected hc hr hg hs]
        exact any_isReset_commitEvents e

theorem state_correct : (t.correct model).tracker.state =
    if (t.correct model).events.any TrackerEvent.isReset then
      (t.attempt model).2.1.resetCovariance t.config.initialCovariance
    else (t.attempt model).2.1 := by
  simp only [correct, List.any_append, any_isReset_attempt, Bool.false_or]
  exact state_record { t with state := (t.attempt model).2.1 } (t.attempt model).1

theorem attempt_kept (h : (t.attempt model).1.isApplied = false) :
    (t.attempt model).2.1 = t.state := by
  rcases attempt_outcome t model with happlied | ⟨-, hkept⟩
  · cases h.symm.trans happlied
  · exact hkept

/-- A correction that is turned away leaves the tracker's time as it was, and its state but for a
reset. -/
theorem state_correct_of_not_applied (h : (t.correct model).result.isApplied = false) :
    (t.correct model).tracker.timestamp = t.timestamp ∧
      (t.correct model).tracker.state =
        if (t.correct model).events.any TrackerEvent.isReset then
          t.state.resetCovariance t.config.initialCovariance
        else t.state := by
  refine ⟨(counted_correct t model).timestamp, ?_⟩
  rw [state_correct, attempt_kept t model h]

theorem tallied_correct : t.Tallied (t.answer (.correct model)) :=
  ((tallied_record { t with state := (t.attempt model).2.1 } (t.attempt model).1).prepend
    (any_isReset_attempt t model)).of_moved

end Correct

/-- **Every reply is tallied.** -/
theorem tallied_answer (t : Tracker α) (call : Call α) : t.Tallied (t.answer call) := by
  cases call with
  | correct model => exact tallied_correct t model
  | process input =>
    have htransition := t.process_transition input
    change t.Tallied (t.process input)
    generalize t.process input = reply at htransition ⊢
    cases htransition with
    | idle _ => exact tallied_record t .predicted
    | misaddressed _ => exact .of_error t _
    | stale _ _ _ => exact .of_error t _
    | unforeseen _ _ _ _ => exact .of_error t _
    | @advanced time s _ _ _ =>
      have h := (tallied_record (t.advancedTo time s) .predicted).prepend
        (any_isReset_predictionEvents (time - t.timestamp) s)
      rw [show (record (t.advancedTo time s) .predicted).2 = [] from rfl, List.append_nil] at h
      exact h.of_moved
    | @corrected message s _ _ _ =>
      rw [correctBy_eq]
      exact ((tallied_correct (t.advancedTo message.timestamp s) message.reading.model).prepend
        (any_isReset_predictionEvents _ s)).of_moved

theorem attempts_answer (t : Tracker α) (call : Call α) :
    Entry.attempts ⟨call, t.answer call⟩ = ((t.answer call).cameTo Outcome.isApplied ||
      (t.answer call).cameTo Outcome.isOutlier || (t.answer call).cameTo Outcome.isInvalid) := by
  have hcorrect : ∀ (r : Tracker α) {V : Type} (model : MeasurementModel (PoseState α) V α),
      ((r.correct model).result.isApplied || (r.correct model).result.isOutlier ||
        (r.correct model).result.isInvalid) = true := by
    intro r V model
    change ((r.attempt model).1.isApplied || (r.attempt model).1.isOutlier ||
      (r.attempt model).1.isInvalid) = true
    rcases attempt_outcome r model with h | ⟨h | h, -⟩ <;> simp [h]
  cases call with
  | correct model => exact (hcorrect t model).symm
  | process input =>
    have htransition := t.process_transition input
    change Entry.attempts ⟨_, t.process input⟩ = ((t.process input).cameTo _ ||
      (t.process input).cameTo _ || (t.process input).cameTo _)
    generalize t.process input = reply at htransition ⊢
    cases htransition with
    | idle _ => rfl
    | misaddressed _ => rfl
    | stale _ _ _ => cases input <;> rfl
    | unforeseen _ _ _ _ => cases input <;> rfl
    | advanced _ _ _ => rfl
    | @corrected message s _ _ _ =>
      rw [correctBy_eq]
      exact (hcorrect (t.advancedTo message.timestamp s) message.reading.model).symm

theorem uncounted_of_refused {t : Tracker α} {input : Input α}
    (h : (t.predictTo input.time).result.isOk = false) (hkept : (t.predictTo input.time).tracker = t) :
    t.uncounted (.process input) = t.state := by
  cases input with
  | timeStep time =>
    change (if t.timestamp < time then (t.predictTo time).tracker.state else t.state) = t.state
    rw [show (t.predictTo time).tracker = t from hkept, ite_self]
  | measurement message =>
    refine if_neg fun hok => ?_
    cases h.symm.trans hok.2

theorem uncounted_of_foreseen {t : Tracker α} {message : Message α} {s : PoseState α}
    (hbody : message.body = t.handle) (hlt : ¬message.timestamp < t.timestamp)
    (hs : t.foreseen message.timestamp = .ok s) : t.uncounted (.process (.measurement message)) =
      ((t.advancedTo message.timestamp s).attempt message.reading.model).2.1 := by
  rw [uncounted, predictTo_of_foreseen_ok hlt hs]
  exact if_pos ⟨hbody, rfl⟩

/-- **A call leaves the state it makes**, but for a reset. -/
theorem state_answer (t : Tracker α) (call : Call α) : (t.answer call).tracker.state =
    if (t.answer call).resets then (t.uncounted call).resetCovariance t.config.initialCovariance
    else t.uncounted call := by
  cases call with
  | correct model => exact state_correct t model
  | process input =>
    have htransition := t.process_transition input
    change (t.process input).tracker.state = if (t.process input).resets then _ else _
    generalize t.process input = reply at htransition ⊢
    cases htransition with
    | idle hahead => exact (if_neg hahead).symm
    | misaddressed hbody => exact (if_neg fun h => hbody h.1).symm
    | stale input _ hlt =>
      -- a time that is refused is not predicted, so there is nothing to correct either
      refine (uncounted_of_refused ?_ ?_).symm <;> rw [predictTo_of_lt hlt]
      rfl
    | unforeseen input _ hlt he =>
      refine (uncounted_of_refused ?_ ?_).symm <;> rw [predictTo_of_foreseen_error hlt he]
      rfl
    | @advanced time s hahead hlt hs =>
      have hmade : t.uncounted (.process (.timeStep time)) = s := by
        rw [uncounted, if_pos hahead, predictTo_of_foreseen_ok hlt hs]
        rfl
      rw [Reply.resets, any_isReset_predictionEvents, hmade]
      rfl
    | @corrected message s hbody hlt hs =>
      rw [uncounted_of_foreseen hbody hlt hs]
      simp only [correctBy_eq, Reply.resets, List.any_append, any_isReset_predictionEvents,
        Bool.false_or]
      exact state_correct _ _

theorem answer_of_error {t : Tracker α} {call : Call α} {e : FilterError α}
    (h : (t.answer call).result = .error e) : (t.answer call).tracker = t := by
  cases call with
  | correct model => cases h
  | process input =>
    have htransition := t.process_transition input
    change (t.process input).result = .error e at h
    change (t.process input).tracker = t
    generalize t.process input = reply at htransition h ⊢
    cases htransition with
    | advanced _ _ _ => cases h
    | corrected _ _ _ => cases h
    | _ => rfl

/-- A measurement that is turned away was looked at by the tracker that had been brought to its time, and
makes no other state than that. -/
theorem uncounted_of_rejected {t : Tracker α} {call : Call α}
    (h : (t.answer call).cameTo Outcome.isOutlier = true ∨
      (t.answer call).cameTo Outcome.isInvalid = true) :
    (t.answer call).tracker.timestamp = (t.brought call).timestamp ∧
      t.uncounted call = (t.brought call).state := by
  cases call with
  | correct model =>
    exact ⟨(counted_correct t model).timestamp,
      attempt_kept t model (Outcome.isApplied_of_rejected h)⟩
  | process input =>
    have htransition := t.process_transition input
    change (t.process input).cameTo _ = true ∨ (t.process input).cameTo _ = true at h
    change (t.process input).tracker.timestamp = _ ∧ _
    generalize t.process input = reply at htransition h ⊢
    cases htransition with
    | @corrected message s hbody hlt hs =>
      have hbrought : t.brought (.process (.measurement message)) =
          t.advancedTo message.timestamp s := by
        rw [brought, predictTo_of_foreseen_ok hlt hs]
      rw [correctBy_eq] at h ⊢
      rw [hbrought, uncounted_of_foreseen hbody hlt hs]
      exact ⟨(counted_correct _ _).timestamp,
        attempt_kept _ _ (Outcome.isApplied_of_rejected h)⟩
    | _ => rcases h with h | h <;> cases h

/-- A measurement that is turned away leaves the tracker at the time it was brought to, and its state
but for a reset. -/
theorem state_of_rejected (t : Tracker α) (call : Call α)
    (h : (t.answer call).cameTo Outcome.isOutlier = true ∨
      (t.answer call).cameTo Outcome.isInvalid = true) :
    (t.answer call).tracker.timestamp = (t.brought call).timestamp ∧
      (t.answer call).tracker.state =
        if (t.answer call).resets then
          (t.brought call).state.resetCovariance t.config.initialCovariance
        else (t.brought call).state := by
  obtain ⟨htime, hmade⟩ := uncounted_of_rejected h
  exact ⟨htime, by rw [state_answer, hmade]⟩

/-! ### All calls -/

/-- A tracker of which nothing has been asked yet. -/
structure Fresh (t : Tracker α) : Prop where
  applied : t.applied = 0
  rejectedOutliers : t.rejectedOutliers = 0
  rejectedInvalid : t.rejectedInvalid = 0
  consecutiveFailures : t.consecutiveFailures = 0

theorem fresh_create {handle : BodyHandle} {config : TrackerConfig α} {state : PoseState α}
    {timestamp : α} {t : Tracker α} (h : create handle config state timestamp = .ok t) : t.Fresh := by
  obtain ⟨-, hcreated⟩ := bind_unit_eq_ok_iff.1 h
  cases hcreated
  exact ⟨rfl, rfl, rfl, rfl⟩

/-- The counters of a tracker agree with what has been written down. -/
structure Recounted (limit : Nat) (log : List (Entry α)) (t : Tracker α) : Prop where
  applied : t.applied = log.countP (·.reply.cameTo Outcome.isApplied)
  rejectedOutliers : t.rejectedOutliers = log.countP (·.reply.cameTo Outcome.isOutlier)
  rejectedInvalid : t.rejectedInvalid = log.countP (·.reply.cameTo Outcome.isInvalid)
  attempts : t.applied + t.rejectedOutliers + t.rejectedInvalid = log.countP Entry.attempts
  consecutiveFailures : t.consecutiveFailures =
    (log.takeWhile (!·.reply.startsOver)).countP (·.reply.cameTo Outcome.blamesState)
  belowLimit : 0 < limit → t.consecutiveFailures < limit

/-- **One call** keeps the counters in agreement. -/
theorem recounted_answer {t : Tracker α} {log : List (Entry α)}
    (h : t.Recounted t.config.maxConsecutiveFailures log) (call : Call α) :
    (t.answer call).tracker.Recounted t.config.maxConsecutiveFailures
      (⟨call, t.answer call⟩ :: log) := by
  have htally := tallied_answer t call
  have hcount : ∀ p : Entry α → Bool, (⟨call, t.answer call⟩ :: log).countP p =
      log.countP p + (p ⟨call, t.answer call⟩).toNat := by
    intro p
    rw [List.countP_cons]
    cases p ⟨call, t.answer call⟩ <;> rfl
  refine ⟨?_, ?_, ?_, ?_, ?_, fun hlimit => ?_⟩
  · rw [htally.applied, h.applied, hcount]
  · rw [htally.rejectedOutliers, h.rejectedOutliers, hcount]
  · rw [htally.rejectedInvalid, h.rejectedInvalid, hcount]
  · have hkinds := Reply.toNat_cameTo (t.answer call)
    have hattempts := h.attempts
    rw [htally.applied, htally.rejectedOutliers, htally.rejectedInvalid, hcount, attempts_answer]
    omega
  · rw [htally.consecutiveFailures, List.takeWhile_cons]
    cases hover : (t.answer call).startsOver with
    | true => rfl
    | false =>
      rw [h.consecutiveFailures, Bool.not_false, if_pos rfl, List.countP_cons]
      cases (t.answer call).cameTo Outcome.blamesState <;> rfl
  · have hbelow := h.belowLimit hlimit
    rw [htally.consecutiveFailures]
    cases hover : (t.answer call).startsOver with
    | true => exact hlimit
    | false =>
      -- a failure that does not reset the covariance leaves room for another one
      have hresets : (t.answer call).resets = false := (Bool.or_eq_false_iff.1 hover).2
      cases hblames : (t.answer call).cameTo Outcome.blamesState with
      | false => exact hbelow
      | true =>
        have hroom : ¬t.config.maxConsecutiveFailures ≤ t.consecutiveFailures + 1 := by
          intro hle
          cases hresets.symm.trans (htally.resets.2 ⟨hblames, hlimit, hle⟩)
        change t.consecutiveFailures + 1 < t.config.maxConsecutiveFailures
        omega

/-- **All calls** keep the counters in agreement, and the settings as they were. -/
theorem recounted_history {t : Tracker α} (ht : t.Fresh) (calls : List (Call α)) :
    (t.history calls).1.config = t.config ∧
      (t.history calls).1.Recounted t.config.maxConsecutiveFailures (t.history calls).2 := by
  induction calls using List.reverseRecOn with
  | nil =>
    obtain ⟨happlied, houtliers, hinvalid, hfailures⟩ := ht
    refine ⟨rfl, happlied, houtliers, hinvalid, ?_, hfailures, fun hlimit => ?_⟩
    · change t.applied + t.rejectedOutliers + t.rejectedInvalid = 0
      omega
    · change t.consecutiveFailures < _
      omega
  | append_singleton calls call ih =>
    obtain ⟨hconfig, hcounted⟩ := ih
    rw [history_concat]
    have hstep := tallied_answer (t.history calls).1 call
    refine ⟨hstep.config.trans hconfig, ?_⟩
    rw [← hconfig] at hcounted ⊢
    exact recounted_answer hcounted call

/-- **The counters tell the history.**  Take any tracker of which nothing has been asked yet, and any
calls.  Its counters are the numbers of corrections that were applied, turned away by the gate and
impossible, and together the number of those attempted.  The failures in a row are those that the
state is to blame for since the last correction that was applied or the last reset, and fewer than the
limit, if there is one.  The next call resets the covariance exactly if it is such a failure and
reaches the limit; a reset keeps the mean and sets the variances of a new state; and a measurement that
is turned away without one leaves state and time as they were when it was looked at.  Whatever else a
call comes to, without a reset it leaves the state that its prediction or its correction made, and an
error leaves the tracker as it was. -/
theorem counters_tell_history (t : Tracker α) (ht : t.Fresh) (calls : List (Call α))
    {now : Tracker α} {log : List (Entry α)} (h : t.history calls = (now, log)) :
    now.applied = log.countP (·.reply.cameTo Outcome.isApplied) ∧
    now.rejectedOutliers = log.countP (·.reply.cameTo Outcome.isOutlier) ∧
    now.rejectedInvalid = log.countP (·.reply.cameTo Outcome.isInvalid) ∧
    now.applied + now.rejectedOutliers + now.rejectedInvalid = log.countP Entry.attempts ∧
    now.consecutiveFailures =
      (log.takeWhile (!·.reply.startsOver)).countP (·.reply.cameTo Outcome.blamesState) ∧
    (0 < t.config.maxConsecutiveFailures →
      now.consecutiveFailures < t.config.maxConsecutiveFailures) ∧
    ∀ call reply, now.answer call = reply →
      (reply.resets = true ↔ reply.cameTo Outcome.blamesState = true ∧
        now.consecutiveFailures + 1 = t.config.maxConsecutiveFailures) ∧
      (reply.resets = true → reply.tracker.timestamp = (now.brought call).timestamp ∧
        reply.tracker.state = { (now.brought call).state with
          covariance := (Mat.scalar PoseState.dim t.config.initialCovariance).toGrid }) ∧
      (reply.resets = false →
        reply.cameTo Outcome.isOutlier = true ∨ reply.cameTo Outcome.isInvalid = true →
        reply.tracker.timestamp = (now.brought call).timestamp ∧
          reply.tracker.state = (now.brought call).state) ∧
      (reply.resets = false → reply.tracker.state = now.uncounted call) ∧
      (∀ e, reply.result = .error e → reply.tracker = now) := by
  obtain ⟨hconfig, hcounted⟩ := recounted_history ht calls
  rw [h] at hconfig hcounted
  refine ⟨hcounted.applied, hcounted.rejectedOutliers, hcounted.rejectedInvalid, hcounted.attempts,
    hcounted.consecutiveFailures, hcounted.belowLimit, ?_⟩
  rintro call _ rfl
  have hresets := (tallied_answer now call).resets
  have hstate := state_of_rejected now call
  rw [show now.config = t.config from hconfig] at hresets hstate
  refine ⟨?_, ?_, ?_, ?_, fun e => answer_of_error⟩
  · have hbelow : 0 < t.config.maxConsecutiveFailures →
        now.consecutiveFailures < t.config.maxConsecutiveFailures := hcounted.belowLimit
    rw [hresets]
    constructor
    · rintro ⟨hblames, hlimit, hle⟩
      have := hbelow hlimit
      exact ⟨hblames, by omega⟩
    · rintro ⟨hblames, heq⟩
      exact ⟨hblames, by omega, by omega⟩
  · intro hreset
    have hinvalid := Reply.isInvalid_of_blamesState (hresets.1 hreset).1
    rw [hreset] at hstate
    exact hstate (.inr hinvalid)
  · intro hkept hrejected
    rw [hkept] at hstate
    exact hstate hrejected
  · intro hkept
    rw [state_answer, hkept]
    rfl

/-- A standard tracker is at no time five failures into a row. -/
theorem counters_tell_history_standard :
    ∃ t : Tracker Float,
      create ⟨1⟩ TrackerConfig.standard PoseState.initial 0 = .ok t ∧
      ∀ calls, (t.history calls).1.consecutiveFailures < 5 ∧
        (t.history calls).1.applied + (t.history calls).1.rejectedOutliers +
          (t.history calls).1.rejectedInvalid = (t.history calls).2.countP Entry.attempts := by
  let t : Tracker Float := ⟨⟨1⟩, TrackerConfig.standard, PoseState.initial, 0, 0, 0, 0, 0⟩
  have hvalid : (TrackerConfig.standard : TrackerConfig Float).validate.isOk = true := by
    decide +kernel
  have hcreate : create ⟨1⟩ TrackerConfig.standard PoseState.initial 0 = .ok t := by
    obtain ⟨u, hchecked⟩ := exists_ok_of_isOk hvalid
    exact bind_unit_eq_ok_iff.2 ⟨hchecked, rfl⟩
  refine ⟨t, hcreate, fun calls => ?_⟩
  obtain ⟨-, -, -, hattempts, -, hbelow, -⟩ :=
    counters_tell_history t (fresh_create hcreate) calls rfl
  exact ⟨hbelow (by decide), hattempts⟩

end Tracker

end PoseFilter
