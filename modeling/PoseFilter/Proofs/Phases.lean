import Mathlib.Logic.Basic
import PoseFilter.Mat.Jacobi
import PoseFilter.Proofs.Transitions

/-!
# All or nothing

A prediction and a correction change a state as a whole or not at all, for every kind of state, every
law of motion and every measurement model, over any type of numbers.  A prediction is refused for its
time step or for a shape that does not fit.  A correction runs in two phases: the first one writes
nothing and says whether there is anything to write; the second one writes the corrected mean with
the corrected covariance, or leaves the state as it was and says why.

* `predicted_eq_ok_iff` : when there is a prediction, and what it is.
* `Correction.corrected_eq_ok_iff` : when there is a corrected state, and what it is.
* `predict_error_iff` : the reasons for which a prediction is refused.
* `Correction.all_or_nothing` : both phases and the prediction together.
-/

namespace PoseFilter

open FilterState

theorem Grid.shape_eq_iff {α : Type} {g : Grid α} {r c : Nat} :
    g.shape = (r, c) ↔ ∃ m : Mat α r c, g = m.toGrid := by
  constructor
  · obtain ⟨rows, cols, cells⟩ := g
    rintro h
    obtain ⟨rfl, rfl⟩ := Prod.mk.inj h
    exact ⟨cells, rfl⟩
  · rintro ⟨m, rfl⟩
    rfl

theorem Grid.asMat?_eq_some_iff {α : Type} {g : Grid α} {r c : Nat} {m : Mat α r c} :
    g.asMat? r c = some m ↔ g = m.toGrid :=
  ⟨asMat?_eq_some, fun h => by rw [h, asMat?_toGrid]⟩

/-- The covariance of a state is a square matrix over its tangent space. -/
def FilterState.Fits {S α : Type} [FilterState S α] (s : S) : Prop :=
  (covariance s).shape = (dim S, dim S)

theorem FilterState.covariance?_eq_ok_iff {S α : Type} [FilterState S α] {s : S}
    {p : Mat α (dim S) (dim S)} : covariance? s = .ok p ↔ covariance s = p.toGrid := by
  refine ⟨fun h => ?_, covariance?_of_toGrid⟩
  unfold covariance? at h
  dsimp only at h
  split at h
  next m hm =>
    cases h
    exact Grid.asMat?_eq_some hm
  next => cases h

theorem FilterState.covariance?_isOk_iff {S α : Type} [FilterState S α] {s : S} :
    (∃ p, covariance? s = .ok p) ↔ Fits s := by
  simp only [covariance?_eq_ok_iff, Fits, Grid.shape_eq_iff]

theorem Update.result_ofExcept_eq_error_iff {S α : Type} {s : S}
    {attempt : Except (FilterError α) S} {e : FilterError α} :
    (Update.ofExcept s attempt).result = .error e ↔ attempt = .error e := by
  cases attempt with
  | ok s' => exact ⟨nofun, nofun⟩
  | error e' => simp

/-! ### Prediction -/

section Predict

variable {S α : Type} [Scalar α] [FilterState S α]

/-- A law of motion carries the covariance `P` of a state over to some `A P Aᵀ`, which is of the same
shape. -/
def MotionModel.KeepsShape (law : MotionModel S α) : Prop :=
  ∀ s dt, Fits s → Fits (law.advance s dt).1

/-- **When there is a prediction, and what it is.** -/
theorem predicted_eq_ok_iff {state s' : S} {law : MotionModel S α} {dt : α} :
    predicted state law dt = .ok s' ↔
      ¬dt < 0 ∧ Scalar.isFinite dt = true ∧ Fits state ∧
      ∃ p q : Mat α (dim S) (dim S), (law.advance state dt).2 = q.toGrid ∧
        covariance? (law.advance state dt).1 = .ok p ∧
        s' = withCovariance (law.advance state dt).1 (p + q).symmetrized.toGrid := by
  unfold predicted
  by_cases hneg : dt < 0
  · simp only [if_pos hneg]
    exact ⟨nofun, fun h => absurd hneg h.1⟩
  cases hfin : Scalar.isFinite dt with
  | false =>
    simp only [if_neg hneg, Bool.not_false, if_true]
    exact ⟨nofun, nofun⟩
  | true =>
    simp only [if_neg hneg, Bool.not_true, Bool.false_eq_true, if_false, ← covariance?_isOk_iff,
      ← Grid.asMat?_eq_some_iff, bind, Except.bind]
    cases covariance? state with
    | error e => exact ⟨nofun, nofun⟩
    | ok p₀ =>
      cases (law.advance state dt).2.asMat? (dim S) (dim S) with
      | none => exact ⟨nofun, nofun⟩
      | some q =>
        cases covariance? (law.advance state dt).1 with
        | error e => exact ⟨nofun, nofun⟩
        | ok p => simp [hneg, pure, Except.pure, eq_comm]

theorem predict_error_iff {state : S} {law : MotionModel S α} {dt : α} :
    (∃ e, (predict state law dt).result = .error e) ↔
      dt < 0 ∨ Scalar.isFinite dt = false ∨ ¬Fits state ∨
        (law.advance state dt).2.shape ≠ (dim S, dim S) ∨ ¬Fits (law.advance state dt).1 := by
  have hok : (∃ s', predicted state law dt = .ok s') ↔
      ¬dt < 0 ∧ Scalar.isFinite dt = true ∧ Fits state ∧
        (law.advance state dt).2.shape = (dim S, dim S) ∧ Fits (law.advance state dt).1 := by
    simp only [predicted_eq_ok_iff, Grid.shape_eq_iff, ← covariance?_isOk_iff]
    constructor
    · rintro ⟨s', hneg, hfin, hfits, p, q, hq, hp, -⟩
      exact ⟨hneg, hfin, hfits, ⟨q, hq⟩, p, hp⟩
    · rintro ⟨hneg, hfin, hfits, ⟨q, hq⟩, p, hp⟩
      exact ⟨_, hneg, hfin, hfits, p, q, hq, hp, rfl⟩
  have herror : (∃ e, (predict state law dt).result = .error e) ↔
      ¬∃ s', predicted state law dt = .ok s' := by
    simp only [predict, Update.result_ofExcept_eq_error_iff]
    cases predicted state law dt with
    | error e => simp
    | ok s' => simp
  rw [herror, hok, not_and_or, not_and_or, not_and_or, not_and_or, not_not, Bool.not_eq_true]

theorem predict_state_of_error {state : S} {law : MotionModel S α} {dt : α} {e : FilterError α}
    (h : (predict state law dt).result = .error e) : (predict state law dt).state = state :=
  Update.state_of_error h

end Predict

theorem Motion.keepsShape_toModel {α : Type} [Scalar α] (m : Motion α) : m.toModel.KeepsShape := by
  intro s dt hs
  obtain ⟨p, hp⟩ := Grid.shape_eq_iff.1 hs
  have hcarried : Motion.carry s.covariance dt (m.attenuation dt) =
      (transition dt (m.attenuation dt) * p * (transition dt (m.attenuation dt)).transpose).toGrid := by
    have hmat : s.covariance.asMat? PoseState.dim PoseState.dim = some p :=
      Grid.asMat?_eq_some_iff.2 hp
    simp only [carry, hmat]
  exact Grid.shape_eq_iff.2 ⟨_, hcarried⟩

/-! ### Noise -/

section Noise

variable {α : Type} {m : Nat}

/-- A covariance of noise that a correction can work with: finite, symmetric, positive definite. -/
def Proposal.soundNoise [Scalar α] (r : Mat α m m) : Bool :=
  r.isFinite && r.isSymmetric symmetryTolerance && r.cholesky?.isSome

theorem Proposal.checkNoise_toGrid [Scalar α] (r : Mat α m m) :
    checkNoise m r.toGrid =
      if soundNoise r then .ok r else .error .measurementCovarianceNotPositiveDefinite := by
  unfold checkNoise
  rw [Grid.asMat?_toGrid]
  rfl

/-- Noise is looked at first, so unsound noise is what a correction fails for, whatever else is wrong. -/
theorem propose_of_unsoundNoise {S V : Type} [Spectral α] [FilterState S α] {state : S}
    {model : MeasurementModel S V α} {r : Mat α model.dim model.dim}
    (hr : model.covariance state = r.toGrid) (h : Proposal.soundNoise r = false)
    (params : UnscentedParams α) :
    propose state model params = .error .measurementCovarianceNotPositiveDefinite := by
  rw [propose, hr, Proposal.checkNoise_toGrid, h]
  rfl

end Noise

/-! ### Correction -/

namespace Correction

section Inspect

variable {S α : Type} [Scalar α] {n m : Nat} {c : Correction S α n m}

theorem rejection_eq_none_iff :
    c.rejection = none ↔ ∃ q, c.proposal = .ok q ∧ q.change.isFinite = true := by
  unfold rejection
  cases c.proposal with
  | error e => exact ⟨nofun, nofun⟩
  | ok q => by_cases hfin : q.change.isFinite = true <;> simp [hfin]

theorem rejection_of_error {e : FilterError α} (h : c.proposal = .error e) :
    c.rejection = some e := by
  rw [rejection, h]

theorem changeIsFinite_iff : c.changeIsFinite = true ↔ c.rejection = none := by
  rw [rejection_eq_none_iff, changeIsFinite]
  cases c.proposal with
  | error e => exact ⟨nofun, nofun⟩
  | ok q => simp

theorem isValid_iff : c.isValid = true ↔ c.rejection = none := Option.isNone_iff_eq_none

end Inspect

variable {S α : Type} [Spectral α] [FilterState S α] {m : Nat} {c : Correction S α (dim S) m}

theorem corrected_of_rejection {e : FilterError α} (h : c.rejection = some e) :
    c.corrected = .error e := by
  unfold rejection at h
  unfold corrected
  cases hq : c.proposal with
  | error e' =>
    rw [hq] at h
    cases h
    rfl
  | ok q =>
    by_cases hfin : q.change.isFinite = true
    · simp [hq, hfin] at h
    · simp only [hq, hfin, Bool.false_eq_true, if_false, Option.some.injEq] at h
      subst h
      simp only [bind, Except.bind, hfin]
      rfl

/-- **When there is a corrected state, and what it is.** -/
theorem corrected_eq_ok_iff {s : S} :
    c.corrected = .ok s ↔ c.rejection = none ∧
      meanIsFinite (retract c.prior c.numbers.change) = true ∧
      ∃ p, covariance c.prior = p.toGrid ∧
        (correctedCovariance p c.numbers).isPositiveSemidefinite = true ∧
        s = withCovariance (retract c.prior c.numbers.change)
          (correctedCovariance p c.numbers).toGrid := by
  cases hr : c.rejection with
  | some e =>
    rw [corrected_of_rejection hr]
    constructor
    · intro h
      cases h
    · rintro ⟨h, -⟩
      cases h
  | none =>
    obtain ⟨q, hq, hfin⟩ := rejection_eq_none_iff.1 hr
    have hnumbers : c.numbers = q := by rw [numbers, hq]
    simp only [hnumbers, true_and, ← covariance?_eq_ok_iff]
    cases hp : covariance? c.prior with
    | error e =>
      constructor
      · intro h
        -- the shape is looked at after the mean: the error is one or the other
        cases hmean : meanIsFinite (retract c.prior q.change) <;>
          simp [corrected, hq, hfin, hmean, hp, bind, Except.bind] at h
      · rintro ⟨-, p, h, -⟩
        cases h
    | ok p =>
      rw [corrected_of_proposal (covariance?_eq_ok_iff.1 hp) hq, hfin, Bool.true_and]
      cases meanIsFinite (retract c.prior q.change) with
      | false => simp
      | true =>
        simp only [if_true, Except.ok.injEq, exists_eq_left', true_and]
        cases (correctedCovariance p q).isPositiveSemidefinite with
        | false => simp
        | true => simp [eq_comm]

theorem commit_eq_ok_iff {s : S} : c.commit = ⟨.ok (), s⟩ ↔ c.corrected = .ok s := by
  refine ⟨Update.eq_ok_of_ofExcept, fun h => ?_⟩
  rw [commit, h, Update.ofExcept_ok]

theorem commit_of_rejection {e : FilterError α} (h : c.rejection = some e) :
    c.commit.result = .error e := by
  rw [commit, corrected_of_rejection h, Update.ofExcept_error]

theorem finish_eq_true_iff : c.finish.1 = true ↔ c.commit.result = .ok () := by
  change c.commit.result.isOk = true ↔ c.commit.result = .ok ()
  cases c.commit.result with
  | error e => exact ⟨nofun, nofun⟩
  | ok u => exact ⟨fun _ => rfl, fun _ => rfl⟩

/-- **All or nothing.**  A prediction under a law that keeps shapes is refused exactly for a time step
that is negative or not finite and for a covariance or a noise that is not square over the tangent
space; one that is refused leaves the state as it was.  The first phase of a correction leaves the
state as it was, and its three ways of telling whether there is something to write agree.  Where there
is nothing, the second phase fails for that very reason; whenever it fails, the state stays as it was;
and it succeeds exactly if the moved mean is finite and `P - K S Kᵀ`, made symmetric, is positive
semi-definite, which is then what is written. -/
theorem all_or_nothing {V : Type} (state : S) (law : MotionModel S α)
    (model : MeasurementModel S V α) (params : UnscentedParams α) :
    (law.KeepsShape → ∀ dt, (∃ e, (predict state law dt).result = .error e) ↔
      dt < 0 ∨ Scalar.isFinite dt = false ∨ (covariance state).shape ≠ (dim S, dim S) ∨
        (law.advance state dt).2.shape ≠ (dim S, dim S)) ∧
    (∀ dt e, (predict state law dt).result = .error e → (predict state law dt).state = state) ∧
    ∀ c, c = Correction.begin state model params →
      c.prior = state ∧
      (c.isValid = true ↔ c.rejection = none) ∧
      (c.changeIsFinite = true ↔ c.rejection = none) ∧
      (∀ e, c.rejection = some e → c.commit.result = .error e) ∧
      (∀ e, c.commit.result = .error e → c.commit.state = state) ∧
      (∀ s, c.commit = ⟨.ok (), s⟩ ↔ c.rejection = none ∧
        meanIsFinite (retract state c.numbers.change) = true ∧
        ∃ p, covariance state = p.toGrid ∧ ∃ p', p' = (p - c.numbers.gain *
            c.numbers.innovationCovariance * c.numbers.gain.transpose).symmetrized ∧
          p'.isPositiveSemidefinite = true ∧
          s = withCovariance (retract state c.numbers.change) p'.toGrid) ∧
      (c.finish.1 = true ↔ c.commit.result = .ok ()) ∧ c.finish.2 = c.commit.state := by
  refine ⟨fun hlaw dt => ?_, fun dt e => predict_state_of_error, ?_⟩
  · rw [predict_error_iff]
    constructor
    · rintro (h | h | h | h | h)
      · exact .inl h
      · exact .inr (.inl h)
      · exact .inr (.inr (.inl h))
      · exact .inr (.inr (.inr h))
      · exact .inr (.inr (.inl fun hfits => h (hlaw state dt hfits)))
    · rintro (h | h | h | h)
      · exact .inl h
      · exact .inr (.inl h)
      · exact .inr (.inr (.inl h))
      · exact .inr (.inr (.inr (.inl h)))
  · rintro c rfl
    refine ⟨rfl, isValid_iff, changeIsFinite_iff, fun e => commit_of_rejection,
      fun e => Update.state_of_error, fun s => ?_, finish_eq_true_iff, rfl⟩
    rw [commit_eq_ok_iff, corrected_eq_ok_iff]
    simp only [exists_eq_left]
    rfl

/-- A body at rest is predicted a second ahead and not a second back, and noise that is not positive
definite leaves it as it was. -/
theorem all_or_nothing_at_rest :
    let state : PoseState Float := PoseState.initial
    let law := (Motion.constantVelocity : Motion Float).toModel
    let c := Correction.begin state (Measurement.position ⟨1, 2, 3⟩ (Mat.scalar 3 0))
      UnscentedParams.standard
    law.KeepsShape ∧ (¬∃ e, (predict state law 1).result = .error e) ∧
      (∃ e, (predict state law (-1)).result = .error e) ∧ (predict state law (-1)).state = state ∧
      c.commit.result = .error .measurementCovarianceNotPositiveDefinite ∧ c.commit.state = state := by
  intro state law c
  have hlaw : law.KeepsShape := Motion.keepsShape_toModel _
  obtain ⟨hpredict, hkept, hphases⟩ := all_or_nothing state law
    (Measurement.position ⟨1, 2, 3⟩ (Mat.scalar 3 0)) UnscentedParams.standard
  obtain ⟨-, -, -, hreason, hsame, -⟩ := hphases c rfl
  have hback : ∃ e, (predict state law (-1)).result = .error e :=
    (hpredict hlaw (-1)).2 (.inl (by decide))
  have hrejected : c.rejection = some .measurementCovarianceNotPositiveDefinite :=
    rejection_of_error (propose_of_unsoundNoise rfl (by decide +kernel) _)
  refine ⟨hlaw, ?_, hback, ?_, hreason _ hrejected, hsame _ (hreason _ hrejected)⟩
  · rw [hpredict hlaw 1]
    rintro (h | h | h | h)
    · exact absurd h (by decide)
    · exact absurd h (by decide)
    · exact h rfl
    · exact h rfl
  · obtain ⟨e, he⟩ := hback
    exact hkept _ e he

end Correction

end PoseFilter
