import PoseFilter.Proofs.History
import PoseFilter.Proofs.Phases
import PoseFilter.Proofs.Results
import PoseFilter.Proofs.Sequencing

/-!
# Whom a failed correction is blamed on

A failure that the state is blamed for counts towards a reset of the covariance.  The rule reads off
the error alone, so it matters where in a correction a bad number first shows.  The noise of a reading
is checked before anything else and is the reading's own fault.  The value of a reading is not checked
at all: what is not finite in it passes through the difference to the prediction, the gain and the sums
in between, and shows as a change of the state that is not finite, which the state is blamed for.

* `Absorbing` : numbers of which an operation on what is not finite is not finite; doubles are such.
* `Reading.valueIsFinite_of_residual` : the difference to a value that is not finite is not finite.
* `propose_cases` : what a correction by a reading of sound noise can come to.
* `Tracker.correctBy_of_not_finite`, `Tracker.iterate_correctBy_limit` : one such reading, and as many as
  the limit allows.
-/

namespace PoseFilter

/-! ### What is not finite stays so -/

/-- Numbers of which sums, differences, products and negatives are finite only if their operands
are. -/
class Absorbing (α : Type) [Scalar α] : Prop where
  add : ∀ {a b : α}, Scalar.isFinite (a + b) = true →
    Scalar.isFinite a = true ∧ Scalar.isFinite b = true
  sub : ∀ {a b : α}, Scalar.isFinite (a - b) = true →
    Scalar.isFinite a = true ∧ Scalar.isFinite b = true
  mul : ∀ {a b : α}, Scalar.isFinite (a * b) = true →
    Scalar.isFinite a = true ∧ Scalar.isFinite b = true
  neg : ∀ {a : α}, Scalar.isFinite (-a) = true → Scalar.isFinite a = true

instance : Absorbing Float where
  add := Doubles.isFinite_of_add
  sub := Doubles.isFinite_of_sub
  mul := Doubles.isFinite_of_mul
  neg := Doubles.isFinite_of_neg

section Finite

variable {α : Type} [Scalar α]

theorem Column.isFinite_iff {n : Nat} {v : Column α n} :
    v.isFinite = true ↔ ∀ i, Scalar.isFinite (v.get i) = true := by
  rw [Column.isFinite, Vector.all_eq_true]
  exact ⟨fun h i => h i.val i.isLt, fun h i hi => h ⟨i, hi⟩⟩

theorem Vec3.isFinite_iff {a : Vec3 α} : a.isFinite = true ↔
    Scalar.isFinite a.x = true ∧ Scalar.isFinite a.y = true ∧ Scalar.isFinite a.z = true := by
  simp only [Vec3.isFinite, Bool.and_eq_true, and_assoc]

theorem Measurement.all_components (v : Vec3 α) :
    (Measurement.components v).all Scalar.isFinite = v.isFinite := by
  simp [Measurement.components, Vec3.isFinite, Bool.and_assoc]

/-- No component of the value of a reading is infinite or undefined. -/
def Reading.valueIsFinite : Reading α → Bool
  | orientation value _ => value.isFinite
  | position value _ => value.isFinite
  | pose value _ => value.position.isFinite && value.orientation.isFinite
  | angularVelocity value _ => value.isFinite

end Finite

section Absorb

variable {α : Type} [Scalar α] [Absorbing α]

theorem isFinite_of_sum {n : Nat} {f : Fin n → α} (h : Scalar.isFinite (sum n f) = true)
    (i : Fin n) : Scalar.isFinite (f i) = true := by
  induction n with
  | zero => exact i.elim0
  | succ n ih =>
    rw [sum, Fin.foldl_succ_last] at h
    obtain ⟨hinit, hlast⟩ := Absorbing.add h
    cases i using Fin.lastCases with
    | last => exact hlast
    | cast i => exact ih hinit i

/-- Every entry of a product looks at the whole column. -/
theorem Column.isFinite_of_mulColumn {n m : Nat} {k : Mat α n m} {v : Column α m} (hn : 0 < n)
    (h : (k.mulColumn v).isFinite = true) : v.isFinite = true := by
  rw [Column.isFinite_iff] at h ⊢
  intro j
  have hrow := h ⟨0, hn⟩
  rw [Mat.mulColumn, Column.get_ofFn] at hrow
  exact (Absorbing.mul (isFinite_of_sum hrow j)).2

theorem Column.isFinite_of_sub {n : Nat} {u v : Column α n} (h : (u.sub v).isFinite = true) :
    u.isFinite = true := by
  rw [Column.isFinite_iff] at h ⊢
  intro i
  have hi := h i
  rw [Column.get_sub] at hi
  exact (Absorbing.sub hi).1

theorem Vec3.isFinite_of_sub {a b : Vec3 α} (h : (a - b).isFinite = true) : a.isFinite = true := by
  obtain ⟨hx, hy, hz⟩ := Vec3.isFinite_iff.1 h
  exact Vec3.isFinite_iff.2 ⟨(Absorbing.sub hx).1, (Absorbing.sub hy).1, (Absorbing.sub hz).1⟩

theorem Vec3.isFinite_of_scale {a : Vec3 α} {s : α} (h : (a.scale s).isFinite = true) :
    a.isFinite = true := by
  obtain ⟨hx, hy, hz⟩ := Vec3.isFinite_iff.1 h
  exact Vec3.isFinite_iff.2 ⟨(Absorbing.mul hx).1, (Absorbing.mul hy).1, (Absorbing.mul hz).1⟩

/-- One component of a Hamilton product is enough: each looks at all four of the left factor. -/
theorem Quaternion.isFinite_of_mul {a b : Quaternion α}
    (h : Scalar.isFinite (a * b).x = true) : a.isFinite = true := by
  obtain ⟨hwxy, hz⟩ := Absorbing.sub (a := a.w * b.x + a.x * b.w + a.y * b.z) h
  obtain ⟨hwx, hy⟩ := Absorbing.add hwxy
  obtain ⟨hw, hx⟩ := Absorbing.add hwx
  simp only [Quaternion.isFinite, (Absorbing.mul hw).1, (Absorbing.mul hx).1, (Absorbing.mul hy).1,
    (Absorbing.mul hz).1, Bool.and_self]

theorem Rotation.isFinite_of_ln {q : Quaternion α} (h : (Rotation.ln q).isFinite = true) :
    Scalar.isFinite q.x = true :=
  (Vec3.isFinite_iff.1 (Vec3.isFinite_of_scale h)).1

theorem Rotation.isFinite_of_difference {a b : Quaternion α}
    (h : (Rotation.difference a b).isFinite = true) : a.isFinite = true := by
  have hln : (Rotation.shortLn (a * b.conj)).isFinite = true := Vec3.isFinite_of_scale h
  unfold Rotation.shortLn at hln
  -- a change of sign does not help
  split at hln
  · exact Quaternion.isFinite_of_mul (Absorbing.neg (Rotation.isFinite_of_ln hln))
  · exact Quaternion.isFinite_of_mul (Rotation.isFinite_of_ln hln)

/-- **A difference to a value that is not finite is not finite.** -/
theorem Reading.valueIsFinite_of_residual (r : Reading α) (center : r.Value)
    (h : (r.model.residual center).all Scalar.isFinite = true) : r.valueIsFinite = true := by
  cases r with
  | orientation value noise =>
    exact Rotation.isFinite_of_difference ((Measurement.all_components _).symm.trans h)
  | position value noise =>
    exact Vec3.isFinite_of_sub ((Measurement.all_components _).symm.trans h)
  | pose value noise =>
    simp only [MeasurementModel.residual, Reading.model, Measurement.pose, Array.all_append,
      Measurement.all_components, Bool.and_eq_true] at h
    exact Bool.and_eq_true_iff.2
      ⟨Vec3.isFinite_of_sub h.1, Rotation.isFinite_of_difference h.2⟩
  | angularVelocity value noise =>
    exact Vec3.isFinite_of_sub ((Measurement.all_components _).symm.trans h)

end Absorb

/-! ### Failures of a correction -/

section Propose

variable {α : Type} [Spectral α]

theorem SigmaPoints.generate_eq_error {s : PoseState α} {p : Mat α PoseState.dim PoseState.dim}
    (hp : s.covariance = p.toGrid) {params : UnscentedParams α} {w : SigmaWeights α PoseState.dim}
    (hw : params.weights PoseState.dim = .ok w) {e : FilterError α}
    (h : generate s params = .error e) : e = .covarianceNotPositiveDefinite := by
  have hcov : FilterState.covariance? s = .ok p :=
    FilterState.covariance?_of_toGrid (S := PoseState α) hp
  have hweights : params.weights (FilterState.dim (PoseState α)) = .ok w := hw
  simp only [generate, hweights, hcov, bind, Except.bind] at h
  cases hfin : p.isFinite with
  | false =>
    rw [hfin] at h
    cases h
    rfl
  | true =>
    rw [hfin] at h
    cases hroot : (p.scale w.spread).squareRoot? with
    | none =>
      simp only [hroot] at h
      cases h
      rfl
    | some root =>
      simp only [hroot] at h
      cases h

/-- What comes of the deviations: an error for the innovation, or a change that is the gain applied to
what is left of the residual. -/
theorem Proposal.ofDeviations_cases {n m : Nat} (r : Mat α m m) (w : SigmaWeights α n)
    (offsets : Mat α (2 * n + 1) n) (deviations : Mat α (2 * n + 1) m) (residual : Column α m) :
    (∃ e : FilterError α, (e = .nonFiniteCorrection ∨ e = .innovationCovarianceSingular) ∧
      ofDeviations r w offsets deviations residual = .error e) ∨
    ∃ (q : Proposal α n m) (shift : Column α m),
      ofDeviations r w offsets deviations residual = .ok q ∧
        q.change = q.gain.mulColumn (residual.sub shift) := by
  unfold ofDeviations
  dsimp only
  split
  · exact .inl ⟨_, .inl rfl, rfl⟩
  · split
    · exact .inl ⟨_, .inr rfl, rfl⟩
    · exact .inr ⟨_, _, rfl, rfl⟩

variable {s : PoseState α} {params : UnscentedParams α} {r : Reading α}

/-- What a reading of sound noise comes to once the sigma points are drawn: its differences have the
length of its model, so all is up to the deviations. -/
theorem propose_of_drawn {sigma : SigmaPoints (PoseState α) α PoseState.dim}
    (hsigma : SigmaPoints.generate s params = .ok sigma) (hr : Proposal.soundNoise r.noise = true) :
    ∃ deviations center, propose s r.model params =
      Proposal.ofDeviations r.noise sigma.weights sigma.offsets deviations
        ⟨r.model.residual center, r.size_difference _ _⟩ := by
  have hlength : ∀ a b, Proposal.checkLength r.model.dim (r.model.difference a b) =
      pure ⟨r.model.difference a b, r.size_difference a b⟩ := fun a b =>
    Proposal.checkLength_of_size (r.size_difference a b)
  simp only [propose, r.covariance_model, Proposal.checkNoise_toGrid, hr, if_true, bind,
    Except.bind, hsigma, hlength, Vector.mapM_pure, MeasurementModel.residual]
  exact ⟨_, _, rfl⟩

variable [Absorbing α] {p : Mat α PoseState.dim PoseState.dim} {w : SigmaWeights α PoseState.dim}
  (hp : s.covariance = p.toGrid) (hw : params.weights PoseState.dim = .ok w)
  (hr : Proposal.soundNoise r.noise = true)

include hp hw hr

/-- **What a correction by a reading of sound noise can come to**: an error that the state is blamed
for, or a change that is finite only if the reading is. -/
theorem propose_cases :
    (∃ e, e.originatesInState = true ∧ propose s r.model params = .error e) ∨
    ∃ q, propose s r.model params = .ok q ∧ (q.change.isFinite = true → r.valueIsFinite = true) := by
  cases hgenerate : SigmaPoints.generate s params with
  | error e =>
    cases SigmaPoints.generate_eq_error hp hw hgenerate
    refine .inl ⟨.covarianceNotPositiveDefinite, rfl, ?_⟩
    simp only [propose, r.covariance_model, Proposal.checkNoise_toGrid, hr, if_true, bind,
      Except.bind, hgenerate]
  | ok sigma =>
    obtain ⟨deviations, center, hproposal⟩ := propose_of_drawn hgenerate hr
    rw [hproposal]
    obtain ⟨e, he, herror⟩ | ⟨q, shift, hq, hchange⟩ := Proposal.ofDeviations_cases r.noise
      sigma.weights sigma.offsets deviations ⟨r.model.residual center, r.size_difference _ _⟩
    · refine .inl ⟨e, ?_, herror⟩
      rcases he with rfl | rfl <;> rfl
    · refine .inr ⟨q, hq, fun hfinite => ?_⟩
      rw [hchange] at hfinite
      have hinnovation := Column.isFinite_of_mulColumn (show 0 < PoseState.dim by decide) hfinite
      exact r.valueIsFinite_of_residual center (Column.isFinite_of_sub hinnovation)

theorem originatesInState_of_corrected {e : FilterError α}
    (h : (Correction.begin s r.model params).corrected = .error e) : e.originatesInState = true := by
  obtain ⟨e', he', herror⟩ | ⟨q, hq, -⟩ := propose_cases hp hw hr
  · rw [Correction.corrected_of_rejection (Correction.rejection_of_error herror)] at h
    cases h
    exact he'
  · rw [Correction.corrected_of_proposal (S := PoseState α) hp hq] at h
    split_ifs at h
    · cases h
      rfl
    · cases h
      rfl

end Propose

/-! ### Blame -/

namespace Tracker

section Blame

variable {α : Type} [Spectral α] {t : Tracker α} {r : Reading α}

theorem attempt_of_unsoundNoise (hr : Proposal.soundNoise r.noise = false) :
    t.attempt r.model = (.rejectedInvalid .measurementCovarianceNotPositiveDefinite, t.state, []) :=
  attempt_of_rejection rfl (Correction.rejection_of_error
    (propose_of_unsoundNoise (r.covariance_model t.state) hr t.config.params))

/-- The tracker after some more failures of its state, none of which calls for a reset. -/
def failed (t : Tracker α) (failures : Nat) : Tracker α :=
  { t with
    rejectedInvalid := t.rejectedInvalid + failures
    consecutiveFailures := t.consecutiveFailures + failures }

variable [Absorbing α] {p : Mat α PoseState.dim PoseState.dim}
  {w : SigmaWeights α PoseState.dim} (hp : t.state.covariance = p.toGrid)
  (hw : t.config.params.weights PoseState.dim = .ok w) (hr : Proposal.soundNoise r.noise = true)

include hp hw hr

theorem originatesInState_of_attempt {e : FilterError α}
    (h : (t.attempt r.model).1 = .rejectedInvalid e) : e.originatesInState = true := by
  obtain ⟨c, hc⟩ : ∃ c, Correction.begin t.state r.model t.config.params = c := ⟨_, rfl⟩
  obtain ⟨e', warnings, hcause, heq⟩ | ⟨d, heq⟩ | ⟨d, s, -, heq⟩ := attempt_cases hc
  · rw [heq] at h
    cases h
    -- a reason not to write is a reason why nothing is written
    have herror : c.corrected = .error e := hcause.elim Correction.corrected_of_rejection id
    subst hc
    exact originatesInState_of_corrected hp hw hr herror
  · rw [heq] at h
    cases h
  · rw [heq] at h
    cases h

theorem attempt_of_not_finite (hvalue : r.valueIsFinite = false) :
    ∃ e, e.originatesInState = true ∧ t.attempt r.model = (.rejectedInvalid e, t.state, []) := by
  obtain ⟨e, he, herror⟩ | ⟨q, hq, hfinite⟩ := propose_cases hp hw hr
  · exact ⟨e, he, attempt_of_rejection rfl (Correction.rejection_of_error herror)⟩
  · have hchange : q.change.isFinite = false := by
      rw [← Bool.not_eq_true]
      intro h
      cases hvalue.symm.trans (hfinite h)
    refine ⟨.nonFiniteCorrection, rfl, attempt_of_rejection rfl ?_⟩
    simp only [Correction.rejection, Correction.begin, hq, hchange, Bool.false_eq_true, if_false]

/-- **A reading of sound noise that is not finite** counts as a failure of the state, and resets the
covariance once there are enough of them. -/
theorem correctBy_of_not_finite (hvalue : r.valueIsFinite = false) :
    (∃ e, e.originatesInState = true ∧ (t.correctBy r).result = .rejectedInvalid e) ∧
    (t.correctBy r).tracker =
      if 0 < t.config.maxConsecutiveFailures ∧
          t.config.maxConsecutiveFailures ≤ t.consecutiveFailures + 1 then
        { t with
          state := t.state.resetCovariance t.config.initialCovariance
          rejectedInvalid := t.rejectedInvalid + 1
          consecutiveFailures := 0 }
      else t.failed 1 := by
  obtain ⟨e, he, hattempt⟩ := attempt_of_not_finite hp hw hr hvalue
  rw [correctBy_eq]
  simp only [correct, hattempt, record_rejectedInvalid, he, true_and]
  refine ⟨⟨e, he, rfl⟩, ?_⟩
  split_ifs <;> rfl

theorem iterate_correctBy_of_not_finite (hvalue : r.valueIsFinite = false) {k : Nat}
    (hk : t.consecutiveFailures + k < t.config.maxConsecutiveFailures) :
    (fun u : Tracker α => (u.correctBy r).tracker)^[k] t = t.failed k := by
  induction k with
  | zero => rfl
  | succ k ih =>
    rw [Function.iterate_succ_apply', ih (by omega)]
    have hbelow : ¬(0 < t.config.maxConsecutiveFailures ∧
        t.config.maxConsecutiveFailures ≤ t.consecutiveFailures + k + 1) := by omega
    exact (correctBy_of_not_finite (t := t.failed k) hp hw hr hvalue).2.trans (if_neg hbelow)

theorem iterate_correctBy_limit (hvalue : r.valueIsFinite = false) {k : Nat}
    (hk : t.consecutiveFailures + k + 1 = t.config.maxConsecutiveFailures) :
    (fun u : Tracker α => (u.correctBy r).tracker)^[k + 1] t =
      { t with
        state := t.state.resetCovariance t.config.initialCovariance
        rejectedInvalid := t.rejectedInvalid + k + 1
        consecutiveFailures := 0 } := by
  rw [Function.iterate_succ_apply',
    iterate_correctBy_of_not_finite hp hw hr hvalue (show t.consecutiveFailures + k < _ by omega)]
  have hreached : 0 < t.config.maxConsecutiveFailures ∧
      t.config.maxConsecutiveFailures ≤ t.consecutiveFailures + k + 1 := by omega
  exact (correctBy_of_not_finite (t := t.failed k) hp hw hr hvalue).2.trans (if_pos hreached)

end Blame

theorem weights_standard : ∃ w : SigmaWeights Float PoseState.dim,
    UnscentedParams.standard.weights PoseState.dim = .ok w :=
  exists_ok_of_isOk (by decide +kernel)

/-- **Who is blamed.**  For every tracker with a covariance over the tangent space and usable sigma
points, and every reading: a correction that cannot be made is blamed on the reading exactly if the
noise is unsound.  Then nothing else is looked at, and neither the state nor the failures in a row
change.  A reading that is not finite and of sound noise is never applied, and it is always the state
that is blamed: the failure counts, and the last one of a row resets the covariance. -/
theorem blamed_unless_unsoundNoise (t : Tracker Float) {p : Mat Float PoseState.dim PoseState.dim}
    (hp : t.state.covariance = p.toGrid) {w : SigmaWeights Float PoseState.dim}
    (hw : t.config.params.weights PoseState.dim = .ok w) (r : Reading Float) :
    (∀ e, (t.correctBy r).result = .rejectedInvalid e →
      (e.originatesInState = false ↔ Proposal.soundNoise r.noise = false)) ∧
    (Proposal.soundNoise r.noise = false →
      (t.correctBy r).result = .rejectedInvalid .measurementCovarianceNotPositiveDefinite ∧
      (t.correctBy r).tracker = { t with rejectedInvalid := t.rejectedInvalid + 1 }) ∧
    (Proposal.soundNoise r.noise = true → r.valueIsFinite = false →
      (∃ e, e.originatesInState = true ∧ (t.correctBy r).result = .rejectedInvalid e) ∧
      (t.correctBy r).tracker =
        if 0 < t.config.maxConsecutiveFailures ∧
            t.config.maxConsecutiveFailures ≤ t.consecutiveFailures + 1 then
          { t with
            state := t.state.resetCovariance t.config.initialCovariance
            rejectedInvalid := t.rejectedInvalid + 1
            consecutiveFailures := 0 }
        else t.failed 1) := by
  refine ⟨?_, ?_, correctBy_of_not_finite hp hw⟩
  · intro e h
    rw [correctBy_eq] at h
    cases hr : Proposal.soundNoise r.noise with
    | true => simp [originatesInState_of_attempt hp hw hr h]
    | false =>
      have hattempt : (t.attempt r.model).1 = .rejectedInvalid e := h
      rw [attempt_of_unsoundNoise hr] at hattempt
      cases hattempt
      exact ⟨fun _ => rfl, fun _ => rfl⟩
  · intro hr
    rw [correctBy_eq]
    simp only [correct, attempt_of_unsoundNoise hr, record_rejectedInvalid, true_and]
    rfl

/-- A standard tracker is not blamed for noise without variance, and is blamed for an infinite rate. -/
theorem blamed_unless_unsoundNoise_standard :
    let t : Tracker Float := ⟨⟨1⟩, TrackerConfig.standard, PoseState.initial, 0, 0, 0, 0, 0⟩
    (t.correctBy (.position ⟨1, 2, 3⟩ (Mat.scalar 3 0))).tracker.consecutiveFailures = 0 ∧
      (t.correctBy (.angularVelocity ⟨0, 1 / 0, 0⟩ (Mat.scalar 3 1))).tracker.consecutiveFailures =
        1 := by
  intro t
  obtain ⟨w, hw⟩ := weights_standard
  have hunsound := (blamed_unless_unsoundNoise t rfl hw (.position ⟨1, 2, 3⟩ (Mat.scalar 3 0))).2.1
  have hinfinite :=
    (blamed_unless_unsoundNoise t rfl hw (.angularVelocity ⟨0, 1 / 0, 0⟩ (Mat.scalar 3 1))).2.2
  constructor
  · rw [(hunsound (by decide +kernel)).2]
  · rw [(hinfinite (by decide +kernel) (by decide +kernel)).2]
    rfl

/-- A healthy tracker is blamed for an undefined position, and gives up a good covariance after five of
them. -/
theorem undefined_position_blames_state :
    let p : Mat Float PoseState.dim PoseState.dim := Mat.scalar PoseState.dim 1
    let t : Tracker Float :=
      ⟨⟨1⟩, TrackerConfig.standard, { PoseState.initial with covariance := p.toGrid }, 0, 0, 0, 0, 0⟩
    let r : Reading Float := .position ⟨Scalar.undefined, 0, 0⟩ (Mat.scalar 3 1)
    (t.state.meanIsFinite = true ∧ t.state.orientation.normSq = 1 ∧ p.isFinite = true ∧
      p.isSymmetric 0 = true ∧ p.isPositiveDefinite = true) ∧
    (∃ e, e.originatesInState = true ∧ (t.correctBy r).result = .rejectedInvalid e) ∧
    (t.correctBy r).tracker.consecutiveFailures = 1 ∧
    ((fun u : Tracker Float => (u.correctBy r).tracker)^[5] t).state.covariance =
      PoseState.isotropic PoseState.initialVariance := by
  intro p t r
  have hhealthy : t.state.meanIsFinite = true ∧ t.state.orientation.normSq = 1 ∧
      p.isFinite = true ∧ p.isSymmetric 0 = true ∧ p.isPositiveDefinite = true := by decide +kernel
  obtain ⟨w, hw⟩ := weights_standard
  have hr : Proposal.soundNoise r.noise = true := by decide +kernel
  have hvalue : r.valueIsFinite = false := by decide +kernel
  obtain ⟨hresult, htracker⟩ := correctBy_of_not_finite (t := t) (p := p) rfl hw hr hvalue
  have hreset := iterate_correctBy_limit (t := t) (p := p) rfl hw hr hvalue (k := 4) rfl
  refine ⟨hhealthy, hresult, ?_, ?_⟩
  · rw [htracker]
    rfl
  · rw [hreset]
    rfl

end Tracker

end PoseFilter
