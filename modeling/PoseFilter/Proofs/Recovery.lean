import PoseFilter.Proofs.Blame
import PoseFilter.Proofs.Gate
import PoseFilter.Proofs.Retraction
import PoseFilter.Proofs.Soundness

/-!
# What a reset recovers

A tracker whose corrections keep failing resets its covariance.  A failure that the state is blamed for
can come from the covariance or from the mean.  The reset cures the covariance: the sigma points of a
fresh covariance can always be drawn.  It does not touch the mean, and a mean that is not finite cannot
be corrected: a correction writes a finite mean or nothing, and what is finite after it was finite
before.  A prediction writes whatever it comes to.  So a mean that has once been predicted out of the
finite range stays there, every measurement is blamed on the state, and every fifth of them resets a
covariance that was in order.

In exact arithmetic there is no such mean, and after a reset nothing is blamed on the state any more.

* `PoseState.meanIsFinite_of_retract`, `Motion.meanIsFinite_of_carried` : a finite mean was finite
  before.
* `Tracker.Lost` : a mean that is not finite; `Tracker.Lost.process` and `Tracker.Lost.replicate` : it
  stays so whatever comes, and resets come in vain.
* `Tracker.reset_cures_covariance_only` : what a reset does for the measurements after it.
* `Tracker.reset_in_vain` : a run from rest after which it does nothing.
* `Tracker.sound_of_resets`, `Tracker.not_blamed_after_reset` : in exact arithmetic a reset is enough.
-/

namespace PoseFilter

/-! ### What is finite was finite before -/

theorem Quaternion.isFinite_iff {q : Quaternion Float} : q.isFinite = true ↔
    q.w.isFinite = true ∧ q.x.isFinite = true ∧ q.y.isFinite = true ∧ q.z.isFinite = true := by
  change (q.w.isFinite && q.x.isFinite && q.y.isFinite && q.z.isFinite) = true ↔ _
  simp only [Bool.and_eq_true, and_assoc]

theorem Quaternion.isFinite_of_normalized {q : Quaternion Float} (h : q.normalized.isFinite = true) :
    q.isFinite = true := by
  obtain ⟨hw, hx, hy, hz⟩ := isFinite_iff.1 h
  exact isFinite_iff.2 ⟨Doubles.isFinite_of_div hw, Doubles.isFinite_of_div hx,
    Doubles.isFinite_of_div hy, Doubles.isFinite_of_div hz⟩

theorem Quaternion.isFinite_right_of_mul {a b : Quaternion Float}
    (h : (a * b).x.isFinite = true) : b.isFinite = true := by
  obtain ⟨hxwz, hy⟩ := Doubles.isFinite_of_sub (a := a.w * b.x + a.x * b.w + a.y * b.z) h
  obtain ⟨hxw, hz⟩ := Doubles.isFinite_of_add hxwz
  obtain ⟨hx, hw⟩ := Doubles.isFinite_of_add hxw
  exact isFinite_iff.2 ⟨(Doubles.isFinite_of_mul hw).2, (Doubles.isFinite_of_mul hx).2,
    (Doubles.isFinite_of_mul hy).2, (Doubles.isFinite_of_mul hz).2⟩

theorem Quaternion.isFinite_of_compose {a b : Quaternion Float}
    (h : (a * b).normalized.isFinite = true) : a.isFinite = true ∧ b.isFinite = true := by
  have hx := (isFinite_iff.1 (isFinite_of_normalized h)).2.1
  exact ⟨isFinite_of_mul hx, isFinite_right_of_mul hx⟩

theorem Rotation.isFinite_of_ofVector {r : Vec3 Float} (h : (ofVector r).isFinite = true) :
    r.isFinite = true := by
  obtain ⟨-, himag⟩ := Quaternion.isFinite_iff.1 (Quaternion.isFinite_of_normalized h)
  exact Vec3.isFinite_of_scale (Vec3.isFinite_of_scale (Vec3.isFinite_iff.2 himag))

theorem Vec3.isFinite_of_add {a b : Vec3 Float} (h : (a + b).isFinite = true) : a.isFinite = true := by
  obtain ⟨hx, hy, hz⟩ := isFinite_iff.1 h
  exact isFinite_iff.2 ⟨(Doubles.isFinite_of_add hx).1, (Doubles.isFinite_of_add hy).1,
    (Doubles.isFinite_of_add hz).1⟩

theorem PoseState.meanIsFinite_iff {s : PoseState Float} : s.meanIsFinite = true ↔
    s.position.isFinite = true ∧ s.orientation.isFinite = true ∧ s.velocity.isFinite = true ∧
      s.angularVelocity.isFinite = true := by
  simp only [meanIsFinite, Bool.and_eq_true, and_assoc]

/-- **A mean that is not finite cannot be corrected into a finite one.** -/
theorem PoseState.meanIsFinite_of_retract {s : PoseState Float} {δ : Column Float PoseState.dim}
    (h : (s.retract δ).meanIsFinite = true) : s.meanIsFinite = true := by
  obtain ⟨hposition, horientation, hvelocity, hrate⟩ := meanIsFinite_iff.1 h
  exact meanIsFinite_iff.2 ⟨Vec3.isFinite_of_add hposition,
    (Quaternion.isFinite_of_compose horientation).2, Vec3.isFinite_of_add hvelocity,
    Vec3.isFinite_of_add hrate⟩

/-- **A mean that is not finite cannot be predicted into a finite one**, and neither can one that turns
too far. -/
theorem Motion.meanIsFinite_of_carried {m : Motion Float} {s : PoseState Float}
    {p : Mat Float PoseState.dim PoseState.dim} {dt : Float}
    (h : (m.carried s p dt).meanIsFinite = true) :
    s.meanIsFinite = true ∧
      ((s.angularVelocity.scale (m.attenuation dt)).scale dt).isFinite = true := by
  obtain ⟨hposition, horientation, hvelocity, hrate⟩ := PoseState.meanIsFinite_iff.1 h
  obtain ⟨hturn, hkept⟩ := Quaternion.isFinite_of_compose horientation
  exact ⟨PoseState.meanIsFinite_iff.2 ⟨Vec3.isFinite_of_add hposition, hkept,
    Vec3.isFinite_of_scale hvelocity, Vec3.isFinite_of_scale hrate⟩,
    Rotation.isFinite_of_ofVector hturn⟩

/-! ### Failures after a reset -/

theorem SigmaPoints.exists_generate_of_fresh {s : PoseState Float}
    (hs : s.covariance = PoseState.isotropic PoseState.initialVariance) :
    ∃ sigma, generate s UnscentedParams.standard = .ok sigma := by
  let fresh : Mat Float PoseState.dim PoseState.dim :=
    Mat.scalar PoseState.dim PoseState.initialVariance
  obtain ⟨w, hw, hroot⟩ := exists_ok_of_any (show
    (UnscentedParams.standard.weights PoseState.dim).toOption.any
      (fun w : SigmaWeights Float PoseState.dim =>
        fresh.isFinite && (fresh.scale w.spread).squareRoot?.isSome) = true by decide +kernel)
  obtain ⟨hfinite, hsome⟩ := Bool.and_eq_true_iff.1 hroot
  obtain ⟨root, hroot⟩ := Option.isSome_iff_exists.1 hsome
  have hweights : UnscentedParams.standard.weights (FilterState.dim (PoseState Float)) = .ok w := hw
  have hcov : FilterState.covariance? s = .ok fresh :=
    FilterState.covariance?_of_toGrid (S := PoseState Float) hs
  simp only [generate, hweights, hcov, bind, Except.bind, hfinite, Bool.not_true, Bool.false_eq_true,
    if_false, hroot]
  exact ⟨_, rfl⟩

theorem propose_error_of_generate {s : PoseState Float} {r : Reading Float}
    {params : UnscentedParams Float} {sigma : SigmaPoints (PoseState Float) Float PoseState.dim}
    (hsigma : SigmaPoints.generate s params = .ok sigma)
    (hr : Proposal.soundNoise r.noise = true) {e : FilterError Float}
    (h : propose s r.model params = .error e) :
    e = .nonFiniteCorrection ∨ e = .innovationCovarianceSingular := by
  obtain ⟨deviations, center, hproposal⟩ := propose_of_drawn hsigma hr
  rw [hproposal] at h
  obtain ⟨e', he, herror⟩ | ⟨q, shift, hq, -⟩ := Proposal.ofDeviations_cases r.noise
    sigma.weights sigma.offsets deviations ⟨r.model.residual center, r.size_difference _ _⟩
  · cases h.symm.trans herror
    exact he
  · cases h.symm.trans hq

namespace Tracker

section Correct

variable {α : Type} [Spectral α] {V : Type} {t : Tracker α}

theorem attempt_of_ungated (hgate : t.config.gate = none) (model : MeasurementModel (PoseState α) V α) :
    (∃ e warnings, ((Correction.begin t.state model t.config.params).rejection = some e ∨
        (Correction.begin t.state model t.config.params).corrected = .error e) ∧
      t.attempt model = (.rejectedInvalid e, t.state, warnings)) ∨
    (∃ d s, (Correction.begin t.state model t.config.params).corrected = .ok s ∧
      t.attempt model = (.applied d, s, [])) := by
  have hpass : ∀ d, beyondGate t.config.gate d = false := fun d => by
    rw [hgate]
    rfl
  cases hr : (Correction.begin t.state model t.config.params).rejection with
  | some e => exact .inl ⟨e, [], .inl rfl, attempt_of_rejection rfl hr⟩
  | none =>
    cases hs : (Correction.begin t.state model t.config.params).corrected with
    | error e => exact .inl ⟨e, _, .inr rfl, attempt_of_uncorrected rfl hr (hpass _) hs⟩
    | ok s => exact .inr ⟨_, s, rfl, attempt_of_corrected rfl hr (hpass _) hs⟩

end Correct

variable {t : Tracker Float} {r : Reading Float} {p : Mat Float PoseState.dim PoseState.dim}

theorem meanIsFinite_of_corrected {params : UnscentedParams Float} {s s' : PoseState Float}
    (hp : s.covariance = p.toGrid) (h : (Correction.begin s r.model params).corrected = .ok s') :
    s.meanIsFinite = true := by
  cases hq : (Correction.begin s r.model params).proposal with
  | error e =>
    rw [Correction.corrected, hq] at h
    cases h
  | ok q =>
    rw [Correction.corrected_of_proposal (S := PoseState Float) hp hq] at h
    split_ifs at h with hfinite
    exact PoseState.meanIsFinite_of_retract (Bool.and_eq_true_iff.1 hfinite).2

/-- **Only a finite mean is corrected.** -/
theorem meanIsFinite_of_applied (hp : t.state.covariance = p.toGrid) {d : Float}
    (h : (t.correctBy r).result = .applied d) : t.state.meanIsFinite = true := by
  rw [correctBy_eq] at h
  change (t.attempt r.model).1 = .applied d at h
  obtain ⟨e, warnings, -, heq⟩ | ⟨d', heq⟩ | ⟨d', s, hs, heq⟩ :=
    attempt_cases (t := t) (c := Correction.begin t.state r.model t.config.params) rfl
  · rw [heq] at h
    cases h
  · rw [heq] at h
    cases h
  · exact meanIsFinite_of_corrected hp hs

theorem valueIsFinite_of_applied (hp : t.state.covariance = p.toGrid)
    {w : SigmaWeights Float PoseState.dim} (hw : t.config.params.weights PoseState.dim = .ok w)
    (hr : Proposal.soundNoise r.noise = true) {d : Float}
    (h : (t.correctBy r).result = .applied d) : r.valueIsFinite = true := by
  by_contra hvalue
  obtain ⟨⟨e, -, hresult⟩, -⟩ :=
    correctBy_of_not_finite hp hw hr (Bool.not_eq_true _ ▸ hvalue)
  cases h.symm.trans hresult

theorem weights_of_standard (hconfig : t.config = .standard) :
    ∃ w : SigmaWeights Float PoseState.dim, t.config.params.weights PoseState.dim = .ok w := by
  rw [hconfig]
  exact weights_standard

theorem correctBy_standard (hconfig : t.config = .standard) (hp : t.state.covariance = p.toGrid)
    (hr : Proposal.soundNoise r.noise = true) :
    (∃ d, (t.correctBy r).result = .applied d) ∨
      ∃ e, (t.correctBy r).result = .rejectedInvalid e ∧ e.originatesInState = true ∧
        (Correction.begin t.state r.model t.config.params).corrected = .error e := by
  obtain ⟨w, hw⟩ := weights_of_standard hconfig
  have hgate : t.config.gate = none := by
    rw [hconfig]
    rfl
  rw [correctBy_eq]
  obtain ⟨e, warnings, hcause, heq⟩ | ⟨d, s, -, heq⟩ := attempt_of_ungated hgate r.model
  · have hresult : (t.attempt r.model).1 = .rejectedInvalid e := by rw [heq]
    exact .inr ⟨e, hresult, originatesInState_of_attempt hp hw hr hresult,
      hcause.elim Correction.corrected_of_rejection id⟩
  · exact .inl ⟨d, by rw [correct, heq]⟩

theorem ne_of_fresh (hconfig : t.config = .standard)
    (hfresh : t.state.covariance = PoseState.isotropic PoseState.initialVariance)
    (hr : Proposal.soundNoise r.noise = true) {e : FilterError Float}
    (h : (Correction.begin t.state r.model t.config.params).corrected = .error e) :
    e ≠ .covarianceNotPositiveDefinite := by
  obtain ⟨sigma, hsigma⟩ := SigmaPoints.exists_generate_of_fresh hfresh
  cases hq : (Correction.begin t.state r.model t.config.params).proposal with
  | error e' =>
    have hproposal : propose t.state r.model UnscentedParams.standard = .error e' := by
      rw [← hq, hconfig]
      rfl
    rw [Correction.corrected, hq] at h
    cases h
    intro hne
    rcases propose_error_of_generate hsigma hr hproposal with rfl | rfl <;> cases hne
  | ok q =>
    rw [Correction.corrected_of_proposal (S := PoseState Float) hfresh hq] at h
    intro hne
    split_ifs at h <;> cases h <;> cases hne

/-! ### Lost trackers -/

/-- A standard tracker whose mean is not finite. -/
structure Lost (t : Tracker Float) : Prop where
  config : t.config = .standard
  orderly : t.Orderly
  mean : t.state.meanIsFinite = false

namespace Lost

theorem correctBy (ht : t.Lost) (r : Reading Float) :
    (t.correctBy r).tracker.Lost ∧ (Proposal.soundNoise r.noise = true →
      ∃ e, (t.correctBy r).result = .rejectedInvalid e ∧ e.originatesInState = true) := by
  obtain ⟨p, hp⟩ := ht.orderly.shape
  have hnot : ∀ d, (t.correctBy r).result ≠ .applied d := fun d h => by
    cases ht.mean.symm.trans (meanIsFinite_of_applied hp h)
  refine ⟨⟨?_, (correctBy_orderly ht.orderly r).2.1, ?_⟩, fun hr => ?_⟩
  · rw [correctBy_eq, (counted_correct t r.model).config]
    exact ht.config
  · have hrejected : (t.correctBy r).result.isApplied = false := by
      cases h : (t.correctBy r).result with
      | applied d => exact absurd h (hnot d)
      | _ => rfl
    rw [correctBy_eq] at hrejected ⊢
    rw [(state_correct_of_not_applied t r.model hrejected).2]
    split_ifs <;> exact ht.mean
  · obtain ⟨d, h⟩ | ⟨e, h, he, -⟩ := correctBy_standard ht.config hp hr
    · exact absurd h (hnot d)
    · exact ⟨e, h, he⟩

theorem advanced (ht : t.Lost) {time : Float} {s : PoseState Float} (hlate : ¬time < t.timestamp)
    (hs : t.foreseen time = .ok s) : (t.advancedTo time s).Lost := by
  obtain ⟨p, hp⟩ := ht.orderly.shape
  obtain ⟨-, s', hs', horderly⟩ | ⟨-, herror⟩ := foreseen_eq ht.orderly hlate
  · cases Except.ok.inj (hs.symm.trans hs')
    refine ⟨ht.config, horderly, ?_⟩
    have hpredicted := predicted_of_toGrid hp t.config.motion (time - t.timestamp)
    rw [show predicted _ _ _ = _ from hs] at hpredicted
    split_ifs at hpredicted
    cases Except.ok.inj hpredicted
    change (t.config.motion.carried t.state p (time - t.timestamp)).meanIsFinite = false
    rw [← Bool.not_eq_true]
    intro h
    cases ht.mean.symm.trans (Motion.meanIsFinite_of_carried h).1
  · cases hs.symm.trans herror

/-- **Nothing helps a lost tracker**: it stays lost, and every measurement of sound noise that is taken
up is blamed on the state. -/
theorem process (ht : t.Lost) (input : Input Float) :
    (t.process input).tracker.Lost ∧
      ∀ message, input = .measurement message → Proposal.soundNoise message.reading.noise = true →
        ∀ outcome, (t.process input).result = .ok outcome →
          ∃ e, outcome = .rejectedInvalid e ∧ e.originatesInState = true := by
  have htransition := t.process_transition input
  generalize t.process input = reply at htransition ⊢
  cases htransition with
  | idle _ => exact ⟨ht, fun _ hm => nomatch hm⟩
  | misaddressed _ => exact ⟨ht, fun _ _ _ _ ho => nomatch ho⟩
  | stale _ _ _ => exact ⟨ht, fun _ _ _ _ ho => nomatch ho⟩
  | unforeseen _ _ _ _ => exact ⟨ht, fun _ _ _ _ ho => nomatch ho⟩
  | advanced _ hlate hs => exact ⟨ht.advanced hlate hs, fun _ hm => nomatch hm⟩
  | @corrected message s _ hlate hs =>
    obtain ⟨hlost, hblamed⟩ := (ht.advanced hlate hs).correctBy message.reading
    refine ⟨hlost, fun m hm hr outcome ho => ?_⟩
    cases Input.measurement.inj hm
    cases Except.ok.inj ho
    exact hblamed hr

theorem processAll (ht : t.Lost) (inputs : List (Input Float)) : (t.processAll inputs).2.Lost := by
  induction inputs generalizing t with
  | nil => exact ht
  | cons input rest ih => exact ih (ht.process input).1

end Lost

/-! ### No time passes -/

theorem foreseen_now (ht : t.Orderly) (hp : t.state.covariance = p.toGrid) :
    t.foreseen t.timestamp = .ok (t.config.motion.carried t.state p 0) := by
  have hnone : ¬(0 : Float) < 0 := by decide
  have hzero : t.timestamp - t.timestamp = 0 := Doubles.sub_self ht.finite
  rw [foreseen, hzero, predicted_of_toGrid hp, if_neg hnone]
  rfl

theorem process_now (ht : t.Orderly) (hp : t.state.covariance = p.toGrid) {message : Message Float}
    (hbody : message.body = t.handle) (htime : message.timestamp = t.timestamp) :
    ∀ u, u = t.advancedTo t.timestamp (t.config.motion.carried t.state p 0) →
      (t.process (.measurement message)).result = .ok (u.correctBy message.reading).result ∧
        (t.process (.measurement message)).tracker = (u.correctBy message.reading).tracker := by
  rintro u rfl
  have hlate : ¬message.timestamp < t.timestamp := by
    rw [htime]
    exact fun h => Doubles.not_lt_of_lt ht.finite h h
  have hs : t.foreseen message.timestamp = .ok (t.config.motion.carried t.state p 0) := by
    rw [htime]
    exact foreseen_now ht hp
  rw [process_measurement_of_foreseen hbody hlate hs, htime]
  exact ⟨rfl, rfl⟩

theorem carried_fresh :
    let fresh : Mat Float PoseState.dim PoseState.dim :=
      Mat.scalar PoseState.dim PoseState.initialVariance
    let a : Mat Float PoseState.dim PoseState.dim := Motion.transition 0 1
    (a * fresh * a.transpose + Motion.constantVelocity.noise 0).symmetrized = fresh := by
  intro fresh a
  exact Mat.ext_toList (by decide +kernel)

namespace Lost

variable {message : Message Float} (hbody : message.body = t.handle)
  (htime : message.timestamp = t.timestamp)
  (hr : Proposal.soundNoise message.reading.noise = true)

include hbody htime hr

theorem process_again (ht : t.Lost) :
    ((t.process (.measurement message)).tracker.handle = t.handle ∧
      (t.process (.measurement message)).tracker.timestamp = t.timestamp) ∧
    ((t.process (.measurement message)).resets = true ↔ 5 ≤ t.consecutiveFailures + 1) ∧
    (t.process (.measurement message)).tracker.consecutiveFailures =
      if 5 ≤ t.consecutiveFailures + 1 then 0 else t.consecutiveFailures + 1 := by
  obtain ⟨p, hp⟩ := ht.orderly.shape
  obtain ⟨hresult, -⟩ := process_now ht.orderly hp hbody htime _ rfl
  obtain ⟨e, herror, he⟩ := (ht.process (.measurement message)).2 message rfl hr _ hresult
  -- what is left is the counting, and the tally says what a failure does to it
  have htally := tallied_answer t (.process (.measurement message))
  have hlimit : t.config.maxConsecutiveFailures = 5 := by
    rw [ht.config]
    rfl
  have hresults : (t.process (.measurement message)).result = .ok (.rejectedInvalid e) := by
    rw [hresult, herror]
  have hblames : (t.process (.measurement message)).cameTo Outcome.blamesState = true := by
    rw [Reply.cameTo, hresults]
    exact he
  have hnot : (t.process (.measurement message)).cameTo Outcome.isApplied = false := by
    rw [Reply.cameTo, hresults]
    rfl
  have hresets : (t.process (.measurement message)).resets = true ↔ 5 ≤ t.consecutiveFailures + 1 := by
    have h := htally.resets
    rw [hlimit] at h
    exact h.trans ⟨fun h => h.2.2, fun h => ⟨hblames, by omega, h⟩⟩
  refine ⟨⟨?_, ?_⟩, hresets, ?_⟩
  · exact handle_process t _
  · rw [← htime]
    exact timestamp_of_ok ht.orderly hresult
  · have h := htally.consecutiveFailures
    change (t.process (.measurement message)).tracker.consecutiveFailures = if
      (t.process (.measurement message)).startsOver then 0 else t.consecutiveFailures +
        ((t.process (.measurement message)).cameTo Outcome.blamesState).toNat at h
    rw [h, Reply.startsOver, hnot, hblames, Bool.false_or]
    simp only [hresets]
    rfl

/-- **Resets in vain**: message after message, a lost tracker stays lost and counts to five. -/
theorem replicate (ht : t.Lost) (hfew : t.consecutiveFailures < 5) (n : Nat) :
    (t.processAll (List.replicate n (.measurement message))).2.Lost ∧
    (t.processAll (List.replicate n (.measurement message))).2.handle = t.handle ∧
    (t.processAll (List.replicate n (.measurement message))).2.timestamp = t.timestamp ∧
    (t.processAll (List.replicate n (.measurement message))).2.consecutiveFailures =
      (t.consecutiveFailures + n) % 5 := by
  induction n generalizing t with
  | zero => exact ⟨ht, rfl, rfl, (Nat.mod_eq_of_lt hfew).symm⟩
  | succ n ih =>
    obtain ⟨⟨hhandle, htimestamp⟩, -, hcount⟩ := process_again hbody htime hr ht
    have hnext : (t.process (.measurement message)).tracker.consecutiveFailures =
        (t.consecutiveFailures + 1) % 5 := by
      rw [hcount]
      split_ifs <;> omega
    obtain ⟨hlost, hhandle', htimestamp', hcount'⟩ := ih (hbody.trans hhandle.symm)
      (htime.trans htimestamp.symm) (ht.process _).1 (by omega)
    refine ⟨hlost, hhandle'.trans hhandle, htimestamp'.trans htimestamp, hcount'.trans ?_⟩
    omega

/-- After four of them the next one resets the covariance, and the one after that fails again. -/
theorem resets_and_fails (ht : t.Lost) (hnone : t.consecutiveFailures = 0) :
    ∀ u, u = (t.processAll (List.replicate 4 (.measurement message))).2 →
      (u.process (.measurement message)).resets = true ∧
      ∃ e, ((u.process (.measurement message)).tracker.process (.measurement message)).result =
        .ok (.rejectedInvalid e) ∧ e.originatesInState = true := by
  rintro u rfl
  obtain ⟨hlost, hhandle, htimestamp, hcount⟩ := replicate hbody htime hr ht (by omega) 4
  rw [hnone] at hcount
  obtain ⟨⟨hhandle', htimestamp'⟩, hresets, -⟩ :=
    process_again (hbody.trans hhandle.symm) (htime.trans htimestamp.symm) hr hlost
  have hlast := (hlost.process (.measurement message)).1
  obtain ⟨p, hp⟩ := hlast.orderly.shape
  obtain ⟨hresult, -⟩ := process_now hlast.orderly hp
    (hbody.trans (hhandle'.trans hhandle).symm) (htime.trans (htimestamp'.trans htimestamp).symm) _ rfl
  obtain ⟨e, heq, he⟩ := (hlast.process (.measurement message)).2 message rfl hr _ hresult
  exact ⟨hresets.2 (by omega), e, by rw [hresult, heq], he⟩

end Lost

/-! ### Resets -/

/-- **What a reset does to a tracker**: the mean that it was brought to is kept, with a fresh
covariance. -/
theorem state_of_resets {α : Type} [Spectral α] {t : Tracker α} {call : Call α}
    (h : (t.answer call).resets = true) :
    (t.answer call).tracker.timestamp = (t.brought call).timestamp ∧
      (t.answer call).tracker.state =
        (t.brought call).state.resetCovariance t.config.initialCovariance ∧
      (t.answer call).tracker.consecutiveFailures = 0 := by
  have htally := tallied_answer t call
  have hinvalid := Reply.isInvalid_of_blamesState (htally.resets.1 h).1
  have hstate := state_of_rejected t call (.inr hinvalid)
  rw [if_pos h] at hstate
  refine ⟨hstate.1, hstate.2, ?_⟩
  rw [htally.consecutiveFailures, Reply.startsOver, h, Bool.or_true, if_pos rfl]

theorem isFinite_brought (ht : t.Orderly) (call : Call Float) :
    (t.brought call).timestamp.isFinite = true := by
  unfold brought
  split
  next message =>
    by_cases hlt : message.timestamp < t.timestamp
    · rw [predictTo_of_lt hlt]
      exact ht.finite
    · obtain ⟨-, s, hs, horderly⟩ | ⟨-, herror⟩ := foreseen_eq ht hlt
      · rw [predictTo_of_foreseen_ok hlt hs]
        exact horderly.finite
      · rw [predictTo_of_foreseen_error hlt herror]
        exact ht.finite
  next => exact ht.finite

theorem process_fresh (hconfig : t.config = .standard) (ht : t.Orderly)
    (hfresh : t.state.covariance = PoseState.isotropic PoseState.initialVariance)
    {message : Message Float} (hbody : message.body = t.handle)
    (htime : message.timestamp = t.timestamp)
    (hr : Proposal.soundNoise message.reading.noise = true) :
    (∃ d, (t.process (.measurement message)).result = .ok (.applied d) ∧
      t.state.meanIsFinite = true ∧ message.reading.valueIsFinite = true) ∨
    ∃ e, (t.process (.measurement message)).result = .ok (.rejectedInvalid e) ∧
      e.originatesInState = true ∧ e ≠ .covarianceNotPositiveDefinite := by
  rw [(process_now ht hfresh hbody htime _ rfl).1]
  set s := t.config.motion.carried t.state (Mat.scalar PoseState.dim PoseState.initialVariance) 0
    with hs
  have hkept : s.covariance = PoseState.isotropic PoseState.initialVariance := by
    rw [hs, hconfig]
    exact congrArg Mat.toGrid carried_fresh
  have hmoved : (t.advancedTo t.timestamp s).config = .standard := hconfig
  obtain ⟨w, hw⟩ := weights_of_standard hmoved
  obtain ⟨d, h⟩ | ⟨e, h, he, hcause⟩ := correctBy_standard hmoved hkept hr
  · have hmean : s.meanIsFinite = true := meanIsFinite_of_applied (t := t.advancedTo _ s) hkept h
    exact .inl ⟨d, by rw [h], (Motion.meanIsFinite_of_carried hmean).1,
      valueIsFinite_of_applied (t := t.advancedTo _ s) hkept hw hr h⟩
  · exact .inr ⟨e, by rw [h], he, ne_of_fresh hmoved hkept hr hcause⟩

theorem soundNoise_of_unit {r : Reading Float} (h : r.noise = Mat.scalar r.model.dim 1) :
    Proposal.soundNoise r.noise = true := by
  rw [h]
  cases r with
  | pose value noise => exact show Proposal.soundNoise (Mat.scalar 6 (1 : Float)) = true by decide +kernel
  | _ => exact show Proposal.soundNoise (Mat.scalar 3 (1 : Float)) = true by decide +kernel

/-- **A reset cures the covariance and nothing else.**  Take a standard tracker with a finite time and a
covariance over the tangent space, and a call that resets the covariance.  Afterwards the mean is the
one that the call was looked at with, the covariance is that of a new state and no failure is counted.
A measurement of sound noise for that very time is then taken up, and it is applied, or it is blamed on
the state; but not on its covariance, and it is applied only if the mean and the measured value are
finite.  If the mean is not finite, the reset is in vain for good: whatever the tracker is given from
then on, every measurement of sound noise that is taken up is blamed on the state. -/
theorem reset_cures_covariance_only {t : Tracker Float} (hconfig : t.config = .standard)
    (hfinite : t.timestamp.isFinite = true) {p : Mat Float PoseState.dim PoseState.dim}
    (hshape : t.state.covariance = p.toGrid) {call : Call Float}
    (hreset : (t.answer call).resets = true) :
    ∀ u, u = (t.answer call).tracker →
      (u.state = (t.brought call).state.resetCovariance PoseState.initialVariance ∧
        u.consecutiveFailures = 0) ∧
      (∀ message : Message Float, message.body = u.handle → message.timestamp = u.timestamp →
        Proposal.soundNoise message.reading.noise = true →
          (∃ d, (u.process (.measurement message)).result = .ok (.applied d) ∧
            u.state.meanIsFinite = true ∧ message.reading.valueIsFinite = true) ∨
          ∃ e, (u.process (.measurement message)).result = .ok (.rejectedInvalid e) ∧
            e.originatesInState = true ∧ e ≠ .covarianceNotPositiveDefinite) ∧
      (u.state.meanIsFinite = false → ∀ (inputs : List (Input Float)) (message : Message Float),
        Proposal.soundNoise message.reading.noise = true → ∀ outcome,
          ((u.processAll inputs).2.process (.measurement message)).result = .ok outcome →
            ∃ e, outcome = .rejectedInvalid e ∧ e.originatesInState = true) := by
  rintro u rfl
  have ht : t.Orderly := ⟨hfinite, p, hshape⟩
  obtain ⟨htime, hstate, hfailures⟩ := state_of_resets hreset
  rw [hconfig] at hstate
  have hsettings : (t.answer call).tracker.config = .standard :=
    (tallied_answer t call).config.trans hconfig
  have hfresh : (t.answer call).tracker.state.covariance =
      PoseState.isotropic PoseState.initialVariance := by
    rw [hstate]
    rfl
  have horderly : (t.answer call).tracker.Orderly :=
    ⟨by rw [htime]; exact isFinite_brought ht call, _, hfresh⟩
  refine ⟨⟨hstate, hfailures⟩, fun message hbody hnow hr => process_fresh hsettings horderly hfresh
    hbody hnow hr, fun hmean inputs message hr outcome ho => ?_⟩
  have hlost : (t.answer call).tracker.Lost := ⟨hsettings, horderly, hmean⟩
  exact ((hlost.processAll inputs).process _).2 message rfl hr outcome ho

/-- A body at an infinite position, four failures into a row: the fifth resets its covariance, and
whatever it is given after that, a position is never applied. -/
theorem reset_cures_covariance_only_infinite :
    let t : Tracker Float :=
      ⟨⟨1⟩, .standard, { PoseState.initial with position := ⟨1 / 0, 0, 0⟩ }, 0, 0, 0, 4, 4⟩
    let message : Message Float := ⟨⟨1⟩, ⟨11⟩, 0, .position ⟨0, 0, 0⟩ (Mat.scalar 3 1)⟩
    ((t.timestamp.isFinite = true ∧ t.state.covariance = (Mat.scalar PoseState.dim 10.0).toGrid) ∧
      (t.answer (.process (.measurement message))).resets = true) ∧
    ∀ inputs outcome,
      (((t.answer (.process (.measurement message))).tracker.processAll inputs).2.process
        (.measurement message)).result = .ok outcome →
          ∃ e, outcome = .rejectedInvalid e ∧ e.originatesInState = true := by
  intro t message
  have hfinite : t.timestamp.isFinite = true := by decide
  have hr : Proposal.soundNoise message.reading.noise = true := soundNoise_of_unit rfl
  have hlost : t.Lost := ⟨rfl, ⟨hfinite, _, rfl⟩, by decide +kernel⟩
  have hreset : (t.answer (.process (.measurement message))).resets = true :=
    (Lost.process_again rfl rfl hr hlost).2.1.2 le_rfl
  refine ⟨⟨⟨hfinite, rfl⟩, hreset⟩, fun inputs outcome ho => ?_⟩
  obtain ⟨-, -, hvain⟩ := reset_cures_covariance_only rfl hfinite
    (p := Mat.scalar PoseState.dim 10.0) rfl hreset _ rfl
  exact hvain (hlost.process _).1.mean inputs message hr outcome ho

/-! ### A reset in vain -/

/-- A proposal that turns nothing and can be written, with a rate at which a body turns out of the
finite range in some time. -/
def writesRunaway {m : Nat} (s : PoseState Float) (p : Mat Float PoseState.dim PoseState.dim)
    (time : Float) (q : Proposal Float PoseState.dim m) : Bool :=
  q.change.isFinite &&
    ((s.retract q.change).position.isFinite && (s.retract q.change).velocity.isFinite &&
      (s.retract q.change).angularVelocity.isFinite) &&
    (decide ((PoseState.block q.change 3 rotation_in_range).x = 0) &&
      decide ((PoseState.block q.change 3 rotation_in_range).y = 0) &&
      decide ((PoseState.block q.change 3 rotation_in_range).z = 0)) &&
    (Correction.correctedCovariance p q).isPositiveSemidefinite &&
    !(((s.retract q.change).angularVelocity.scale 1).scale time).isFinite

theorem correctBy_of_writesRunaway (hcos : Float.cos 0 = 1) (hgate : t.config.gate = none)
    (hturned : t.state.orientation = Quaternion.identity) (hp : t.state.covariance = p.toGrid)
    {q : Proposal Float PoseState.dim r.model.dim}
    (hq : propose t.state r.model t.config.params = .ok q) {time : Float}
    (h : writesRunaway t.state p time q = true) :
    ∃ s, (t.correctBy r).tracker =
        { t with state := s, applied := t.applied + 1, consecutiveFailures := 0 } ∧
      (∃ p' : Mat Float PoseState.dim PoseState.dim, s.covariance = p'.toGrid) ∧
      ((s.angularVelocity.scale 1).scale time).isFinite = false := by
  simp only [writesRunaway, Bool.and_eq_true, decide_eq_true_eq, Bool.not_eq_true'] at h
  obtain ⟨⟨⟨⟨hfinite, hflat⟩, ⟨hx, hy⟩, hz⟩, hpsd⟩, hrunaway⟩ := h
  have hmean : (t.state.retract q.change).meanIsFinite = true := by
    rw [meanIsFinite_retract hcos hturned hx hy hz]
    simpa only [Bool.and_eq_true] using hflat
  have hr : (Correction.begin t.state r.model t.config.params).rejection = none :=
    Correction.rejection_eq_none_iff.2 ⟨q, hq, hfinite⟩
  have hcorrected := (Correction.corrected_of_proposal (S := PoseState Float)
    (c := Correction.begin t.state r.model t.config.params) hp hq).trans
      ((if_pos (Bool.and_eq_true_iff.2 ⟨hfinite, hmean⟩)).trans (if_pos hpsd))
  rw [correctBy_of_ungated hgate rfl hr hcorrected]
  exact ⟨_, rfl, ⟨_, rfl⟩, hrunaway⟩

theorem lost_of_runaway (hconfig : t.config = .standard) (ht : t.Orderly) {time : Float}
    (hahead : t.timestamp < time) (hdt : Scalar.isFinite (time - t.timestamp) = true)
    (hrunaway : ((t.state.angularVelocity.scale 1).scale (time - t.timestamp)).isFinite = false) :
    ∃ s, (t.process (.timeStep time)).tracker = t.advancedTo time s ∧ (t.advancedTo time s).Lost := by
  obtain ⟨p, hp⟩ := ht.shape
  have hlate : ¬time < t.timestamp := Doubles.not_lt_of_lt ht.finite hahead
  have hs := predicted_of_toGrid hp t.config.motion (time - t.timestamp)
  rw [if_neg (Doubles.not_sub_neg ht.finite hlate), if_pos hdt] at hs
  refine ⟨_, by rw [process_timeStep_of_foreseen hahead hlate hs], hconfig,
    ⟨(Doubles.isFinite_of_sub hdt).1, _, rfl⟩, ?_⟩
  rw [← Bool.not_eq_true]
  intro h
  have hturn := (Motion.meanIsFinite_of_carried h).2
  rw [hconfig] at hturn
  cases hrunaway.symm.trans hturn

theorem carried_initial (hcos : Float.cos 0 = 1) :
    Motion.constantVelocity.carried (PoseState.initial : PoseState Float)
      (Mat.scalar PoseState.dim PoseState.initialVariance) 0 = PoseState.initial := by
  have hrest : (Vec3.zero : Vec3 Float).scale 1 = Vec3.zero := by ext <;> decide +kernel
  have hstill : (Vec3.zero : Vec3 Float).scale 0 = Vec3.zero := by ext <;> decide +kernel
  have hthere : (Vec3.zero : Vec3 Float) + Vec3.zero = Vec3.zero := by ext <;> decide +kernel
  have hturned : (Quaternion.identity * Quaternion.identity : Quaternion Float).normalized =
      Quaternion.identity := by ext <;> decide +kernel
  have hone : Motion.constantVelocity.attenuation (0 : Float) = 1 := rfl
  simp only [Motion.carried, Motion.advanceMean, PoseState.initial, hone, hrest, hstill, hthere,
    ofVector_zero_of_cos hcos, hturned, carried_fresh]
  rfl

theorem lost_of_rate (hcos : Float.cos 0 = 1) (hconfig : t.config = .standard) (ht : t.Orderly)
    (hstate : t.state = PoseState.initial) {message : Message Float} (hbody : message.body = t.handle)
    (hnow : message.timestamp = t.timestamp)
    {q : Proposal Float PoseState.dim message.reading.model.dim}
    (hq : propose PoseState.initial message.reading.model UnscentedParams.standard = .ok q)
    {time : Float} (hahead : t.timestamp < time)
    (hdt : Scalar.isFinite (time - t.timestamp) = true)
    (hrunaway : writesRunaway PoseState.initial (Mat.scalar PoseState.dim PoseState.initialVariance)
      (time - t.timestamp) q = true) :
    ∀ u, u = (t.processAll [.measurement message, .timeStep time]).2 →
      u.Lost ∧ u.handle = t.handle ∧ u.timestamp = time ∧ u.consecutiveFailures = 0 := by
  rintro u rfl
  have hsame : t = t.advancedTo t.timestamp (t.config.motion.carried t.state
      (Mat.scalar PoseState.dim PoseState.initialVariance) 0) := by
    have hcarried := carried_initial hcos
    rw [hconfig, hstate]
    change t = t.advancedTo t.timestamp (Motion.constantVelocity.carried _ _ 0)
    rw [hcarried, ← hstate]
    rfl
  have hfresh : t.state.covariance = (Mat.scalar PoseState.dim PoseState.initialVariance).toGrid := by
    rw [hstate]
    rfl
  -- the rate is applied
  have hparams : t.config.params = UnscentedParams.standard := by
    rw [hconfig]
    rfl
  rw [← hstate] at hrunaway
  rw [← hstate, ← hparams] at hq
  obtain ⟨s, hspun, hshape, hfast⟩ := correctBy_of_writesRunaway hcos (by rw [hconfig]; rfl)
    (by rw [hstate]; rfl) hfresh hq hrunaway
  have hfirst := (process_now ht hfresh hbody hnow t hsame).2.trans hspun
  -- and the prediction leaves the finite range
  obtain ⟨s', hstep, hlost⟩ := lost_of_runaway
    (t := { t with state := s, applied := t.applied + 1, consecutiveFailures := 0 }) hconfig
    ⟨ht.finite, hshape⟩ hahead hdt hfast
  rw [processAll_cons, hfirst, processAll_cons, hstep]
  exact ⟨hlost, rfl, rfl, rfl⟩

/-- A new body that is seen to turn at some 10³⁰⁰ radians per second will turn out of the finite range
within 10¹⁰ seconds. -/
theorem writesRunaway_spin :
    (propose PoseState.initial
        (Measurement.angularVelocity (⟨1e300, 0, 0⟩ : Vec3 Float) (Mat.scalar 3 1))
        UnscentedParams.standard).toOption.any
      (writesRunaway PoseState.initial (Mat.scalar PoseState.dim PoseState.initialVariance)
        (1e10 - 0)) = true := by
  decide +kernel

/-- A standard tracker of a body at rest is told of a rate that is finite and, later, of its position.
The fifth time resets the covariance, and the sixth fails as the others did. -/
theorem reset_in_vain :
    let spin : Message Float := ⟨⟨1⟩, ⟨10⟩, 0, .angularVelocity ⟨1e300, 0, 0⟩ (Mat.scalar 3 1)⟩
    let look : Message Float := ⟨⟨1⟩, ⟨11⟩, 1e10, .position ⟨0, 0, 0⟩ (Mat.scalar 3 1)⟩
    let inputs : List (Input Float) :=
      [.measurement spin, .timeStep 1e10] ++ List.replicate 4 (.measurement look)
    (spin.reading.valueIsFinite = true ∧ look.reading.valueIsFinite = true) ∧
    (Float.cos 0 ≠ 1 ∨ ∃ t, createAtRest ⟨1⟩ .standard = .ok t ∧
      ((t.processAll inputs).2.process (.measurement look)).resets = true ∧
      ∃ e, (((t.processAll inputs).2.process (.measurement look)).tracker.process
          (.measurement look)).result = .ok (.rejectedInvalid e) ∧ e.originatesInState = true) := by
  intro spin look inputs
  refine ⟨by decide +kernel, ?_⟩
  by_cases hcos : Float.cos 0 = 1
  · obtain ⟨⟨⟩, hvalid⟩ := exists_ok_of_isOk (show
      (TrackerConfig.standard : TrackerConfig Float).validate.isOk = true by decide +kernel)
    obtain ⟨q, hq, hrunaway⟩ := exists_ok_of_any writesRunaway_spin
    let t : Tracker Float := ⟨⟨1⟩, .standard, PoseState.initial, 0, 0, 0, 0, 0⟩
    have hspin : spin.body = t.handle := rfl
    obtain ⟨hlost, hhandle, htime, hnone⟩ := lost_of_rate hcos rfl ⟨by decide, _, rfl⟩ rfl hspin rfl hq
      (by decide) (by decide) hrunaway _ rfl
    have hlook : Proposal.soundNoise look.reading.noise = true := soundNoise_of_unit rfl
    refine .inr ⟨t, createAtRest_eq hvalid ⟨1⟩, ?_⟩
    rw [processAll_append]
    have hbody : look.body = _ := hhandle.symm
    exact hlost.resets_and_fails hbody htime.symm hlook hnone _ rfl
  · exact .inl hcos

/-! ### Exact arithmetic -/

section Exact

variable [Diagonalization] {t : Tracker ℝ} {call : Call ℝ}

theorem isUnit_brought (h : t.state.orientation.IsUnit) (call : Call ℝ) :
    (t.brought call).state.orientation.IsUnit := by
  unfold brought
  split
  next message =>
    by_cases hlt : message.timestamp < t.timestamp
    · rw [predictTo_of_lt hlt]
      exact h
    · cases hs : t.foreseen message.timestamp with
      | error e =>
        rw [predictTo_of_foreseen_error hlt hs]
        exact h
      | ok s =>
        rw [predictTo_of_foreseen_ok hlt hs]
        exact PoseState.lasting_isUnit.predicted h hs
  next => exact h

/-- **In exact arithmetic a reset is enough**, whatever the covariance was before: the tracker is
sound. -/
theorem sound_of_resets (hc : t.config.validate = .ok ()) (hunit : t.state.orientation.IsUnit)
    (hreset : (t.answer call).resets = true) : (t.answer call).tracker.Sound := by
  obtain ⟨-, hstate, hfailures⟩ := state_of_resets hreset
  have hvalid := TrackerConfig.validate_spec hc
  refine ⟨?_, ?_, hfailures⟩
  · rw [(tallied_answer t call).config]
    exact hvalid
  · rw [hstate]
    exact PoseState.sound_resetCovariance (isUnit_brought hunit call) hvalid.initialCovariance_pos

/-- After a reset no measurement of symmetric noise is ever blamed on the state again. -/
theorem not_blamed_after_reset (hc : t.config.validate = .ok ())
    (hunit : t.state.orientation.IsUnit) (hreset : (t.answer call).resets = true)
    {inputs : List (Input ℝ)} (hinputs : ∀ input ∈ inputs, input.Symmetric) {message : Message ℝ}
    (hmessage : message.reading.Symmetric) {outcome : Outcome ℝ}
    (h : (((t.answer call).tracker.processAll inputs).2.process (.measurement message)).result =
      .ok outcome) : outcome.blamesState = false := by
  have hsound := processAll_sound (sound_of_resets hc hunit hreset) hinputs
  have hinput : (Input.measurement message).Symmetric := hmessage
  obtain ⟨hnoise, happlied⟩ := (process_sound hsound hinput).2.2 message rfl outcome h
  by_cases hr : message.reading.noise.toMatrix.PosDef
  · obtain ⟨d, rfl | rfl⟩ := happlied hr <;> rfl
  · rw [hnoise.2 hr]
    rfl

end Exact

end Tracker

end PoseFilter
