import PoseFilter.Proofs.Drift
import PoseFilter.Proofs.History
import PoseFilter.Proofs.Phases
import PoseFilter.Proofs.Readings

/-!
# Retractions, and what no move of a state takes away

A tangent vector that is retracted onto a state can be taken back: retracting its opposite restores the
state exactly, also where the exponential takes its series, because opposite rotation vectors give
conjugate quaternions and both are units.

A state is moved by retractions, by laws of motion, by predictions and by corrections.  A prediction is a
law of motion and a correction is a retraction, each with another covariance, and one that is refused
leaves the state as it was.  So what retractions and laws of motion keep, whatever the covariance, is kept
by every move, by every run of moves and by every tracker under any calls (`PoseState.Lasting`).  That the
orientation is a unit quaternion is such a property (`PoseState.lasting_isUnit`).

* `PoseState.retract_retract_neg` : a retraction is undone by that of the opposite vector.
* `PoseState.Lasting.moved`, `PoseState.Lasting.answer` : one move and one call; `PoseState.Lasting.run`,
  `PoseState.Lasting.history` : all of them.
* `PoseState.retraction_undone_and_unit` : retractions and runs together.
-/

namespace PoseFilter

open FilterState

theorem Update.state_ofExcept {S α : Type} (s : S) (attempt : Except (FilterError α) S) :
    (Update.ofExcept s attempt).state = s ∨ attempt = .ok (Update.ofExcept s attempt).state := by
  cases attempt with
  | ok s' => exact .inr rfl
  | error e => exact .inl rfl

namespace PoseState

/-! ### Moves -/

/-- What can happen to a state. -/
inductive Move (α : Type) : Type 1
  /-- A tangent vector is retracted onto the mean. -/
  | retract (δ : Column α dim)
  /-- A law of motion moves it, over any time and without noise. -/
  | advance (m : Motion α) (dt : α)
  /-- It is predicted under a law of motion. -/
  | predict (m : Motion α) (dt : α)
  /-- It is corrected by a measurement of any kind. -/
  | correct {V : Type} (model : MeasurementModel (PoseState α) V α) (params : UnscentedParams α)

section Lasting

variable {α : Type} [Spectral α]

/-- The state after a move.  A prediction or a correction that is refused leaves it as it was. -/
def moved (s : PoseState α) : Move α → PoseState α
  | .retract δ => s.retract δ
  | .advance m dt => m.advance s dt
  | .predict m dt => (PoseFilter.predict s m.toModel dt).state
  | .correct model params => (Correction.begin s model params).commit.state

/-- The state after moves, one after the other. -/
def run (s : PoseState α) (moves : List (Move α)) : PoseState α := moves.foldl moved s

/-- A property of states that no retraction, no law of motion and no other covariance takes away. -/
structure Lasting (P : PoseState α → Prop) : Prop where
  retract : ∀ {s : PoseState α} (δ : Column α dim), P s → P (s.retract δ)
  advance : ∀ {s : PoseState α} (m : Motion α) (dt : α), P s → P (m.advance s dt)
  withCovariance : ∀ {s : PoseState α} (g : Grid α), P s → P { s with covariance := g }

namespace Lasting

variable {P : PoseState α → Prop} (hP : Lasting P) {s s' : PoseState α} {t r : Tracker α}

include hP

theorem predicted {m : Motion α} {dt : α} (hs : P s)
    (h : PoseFilter.predicted s m.toModel dt = .ok s') : P s' := by
  obtain ⟨-, -, -, p, q, -, -, rfl⟩ := predicted_eq_ok_iff.1 h
  exact hP.withCovariance _ (hP.advance m dt hs)

theorem corrected {m : Nat} {c : Correction (PoseState α) α dim m} (hs : P c.prior)
    (h : c.corrected = .ok s') : P s' := by
  obtain ⟨-, -, p, -, -, rfl⟩ := Correction.corrected_eq_ok_iff.1 h
  exact hP.withCovariance _ (hP.retract _ hs)

/-- **One move.** -/
theorem moved (hs : P s) (move : Move α) : P (s.moved move) := by
  cases move with
  | retract δ => exact hP.retract δ hs
  | advance m dt => exact hP.advance m dt hs
  | predict m dt =>
    change P (Update.ofExcept s (PoseFilter.predicted s m.toModel dt)).state
    rcases Update.state_ofExcept s (PoseFilter.predicted s m.toModel dt) with hkept | hdone
    · rwa [hkept]
    · exact hP.predicted hs hdone
  | correct model params =>
    change P (Update.ofExcept s (Correction.begin s model params).corrected).state
    rcases Update.state_ofExcept s (Correction.begin s model params).corrected with hkept | hdone
    · rwa [hkept]
    · exact hP.corrected hs hdone

/-- **All moves.** -/
theorem run (hs : P s) (moves : List (Move α)) : P (s.run moves) := by
  induction moves generalizing s with
  | nil => exact hs
  | cons move rest ih => exact ih (hP.moved hs move)

/-! ### Trackers -/

theorem counted (ht : P t.state) (h : t.Counted r) : P r.state := by
  rcases h.state with hsame | ⟨variance, hreset⟩
  · rwa [hsame]
  · rw [hreset]
    exact hP.withCovariance _ ht

theorem correct {V : Type} (ht : P t.state) (model : MeasurementModel (PoseState α) V α) :
    P (t.correct model).tracker.state := by
  have hattempt : P (t.attempt model).2.1 := by
    obtain ⟨c, hc⟩ : ∃ c, Correction.begin t.state model t.config.params = c := ⟨_, rfl⟩
    obtain ⟨e, warnings, -, heq⟩ | ⟨d, heq⟩ | ⟨d, s, hs, heq⟩ := Tracker.attempt_cases hc
    · rwa [heq]
    · rwa [heq]
    · rw [heq]
      subst hc
      exact hP.corrected ht hs
  exact hP.counted (t := { t with state := (t.attempt model).2.1 }) hattempt
    (Tracker.counted_correct t model)

/-- **One call.** -/
theorem answer (ht : P t.state) (call : Call α) : P (t.answer call).tracker.state := by
  cases call with
  | correct model => exact hP.correct ht model
  | process input =>
    have htransition := t.process_transition input
    change P (t.process input).tracker.state
    generalize t.process input = reply at htransition ⊢
    cases htransition with
    | advanced _ _ hs => exact hP.predicted ht hs
    | @corrected message s _ _ hs =>
      rw [Tracker.correctBy_eq]
      exact hP.correct (t := t.advancedTo message.timestamp s) (hP.predicted ht hs) _
    | _ => exact ht

/-- **All calls**, resets of the covariance included. -/
theorem history (ht : P t.state) (calls : List (Call α)) : P (t.history calls).1.state := by
  induction calls using List.reverseRecOn with
  | nil => exact ht
  | append_singleton calls call ih =>
    rw [Tracker.history_concat]
    exact hP.answer ih call

end Lasting

end Lasting

/-! ### Exact retractions -/

variable {s : PoseState ℝ}

theorem covariance_retract (s : PoseState ℝ) (δ : Column ℝ dim) :
    (s.retract δ).covariance = s.covariance := rfl

/-- **A retraction is undone** by that of the opposite vector. -/
theorem retract_retract_neg (hs : s.orientation.IsUnit) (δ : Column ℝ dim) :
    (s.retract δ).retract δ.neg = s := by
  have hflat : ∀ a b : Vec3 ℝ, a + b + -b = a := fun a b => by
    ext <;> exact add_neg_cancel_right _ _
  have hturn : ∀ r : Vec3 ℝ, (Rotation.ofVector (-r) *
      (Rotation.ofVector r * s.orientation).normalized).normalized = s.orientation := fun r => by
    rw [((Rotation.ofVector_isUnit r).compose hs).1, Rotation.ofVector_neg,
      (Rotation.ofVector_isUnit r).conj_mul_mul, hs.normalized_eq]
  simp only [retract, block_neg, hflat, hturn]

/-- **That the orientation is a unit lasts.** -/
theorem lasting_isUnit [Diagonalization] :
    Lasting fun s : PoseState ℝ => s.orientation.IsUnit where
  retract := fun _ hs => Rotation.isUnit_turned hs _
  advance := fun _ _ hs => Rotation.isUnit_turned hs _
  withCovariance := fun _ hs => hs

/-- **Retractions can be taken back, and orientations stay units.**  The exponential of every vector is a
unit quaternion, and that of the opposite vector is its conjugate; since a quotient by zero is zero here,
this says too that no normalization divides by zero.  Let the orientation of a state be a unit.  A
retraction of any tangent vector leaves the covariance alone and the orientation a unit, and retracting
the opposite vector restores the state.  The orientation is a unit after any run of retractions, laws of
motion, predictions and corrections by measurements of any kind, whatever their parameters and whether or
not they are refused, and after any calls on a tracker of that state. -/
theorem retraction_undone_and_unit [Diagonalization] :
    (∀ v : Vec3 ℝ, (Rotation.exp v).IsUnit ∧ Rotation.exp (-v) = (Rotation.exp v).conj) ∧
    ∀ s : PoseState ℝ, s.orientation.IsUnit →
      (∀ δ : Column ℝ dim, (s.retract δ).covariance = s.covariance ∧
        (s.retract δ).orientation.IsUnit ∧ (s.retract δ).retract δ.neg = s) ∧
      (∀ moves : List (Move ℝ), (s.run moves).orientation.IsUnit) ∧
      ∀ t : Tracker ℝ, t.state = s → ∀ calls : List (Call ℝ),
        (t.history calls).1.state.orientation.IsUnit := by
  refine ⟨fun v => ⟨Rotation.exp_isUnit v, Rotation.exp_neg v⟩, fun s hs => ⟨fun δ => ?_, ?_, ?_⟩⟩
  · exact ⟨covariance_retract s δ, Rotation.isUnit_turned hs _, retract_retract_neg hs δ⟩
  · exact lasting_isUnit.run hs
  · rintro t rfl
    exact lasting_isUnit.history hs

/-- A turning body, moved forth and back by a vector that is short enough for the series. -/
theorem retraction_undone_and_unit_turning :
    let δ : Column ℝ dim := Column.ofFn fun _ => 1e-14
    let look : MeasurementModel (PoseState ℝ) (Vec3 ℝ) ℝ := Measurement.position ⟨1, 0, 0⟩ (Mat.scalar 3 1)
    let moves : List (Move ℝ) :=
      [.retract δ, .predict .constantVelocity 1, .correct look .standard, .advance .damped (-1)]
    let calls : List (Call ℝ) := [.process (.timeStep 1), .correct look, .process (.timeStep 3)]
    (turning.orientation.IsUnit ∧ ((block δ 3 (by decide)).scale 0.5).norm < 1e-13) ∧
      (turning.retract δ).retract δ.neg = turning ∧ (turning.run moves).orientation.IsUnit ∧
      (Tracker.turning.history calls).1.state.orientation.IsUnit := by
  intro δ look moves calls
  have hunit : turning.orientation.IsUnit := Quaternion.isUnit_identity
  have hshort : ((block δ 3 (by decide)).scale 0.5).norm < 1e-13 := by
    have hblock : block δ 3 (by decide) = (⟨1e-14, 1e-14, 1e-14⟩ : Vec3 ℝ) := by
      ext <;> simp [δ, block, Column.ofFn]
    rw [hblock]
    refine (Real.sqrt_lt' (by norm_num)).2 ?_
    norm_num [Vec3.dot, Vec3.scale]
  obtain ⟨-, hstates⟩ := retraction_undone_and_unit
  obtain ⟨hretract, hmoves, hcalls⟩ := hstates turning hunit
  exact ⟨⟨hunit, hshort⟩, (hretract δ).2.2, hmoves moves, hcalls Tracker.turning rfl calls⟩

end PoseState

end PoseFilter
