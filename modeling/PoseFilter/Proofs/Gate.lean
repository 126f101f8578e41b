import PoseFilter.Proofs.Phases
import PoseFilter.Proofs.Results
import PoseFilter.Proofs.Sequencing

/-!
# The gate

A measurement whose squared distance is above the gate is an outlier and is not applied.  The gate is
one comparison, `g < d`, and on doubles it is not the opposite of `d ≤ g`: both fail for a `d` that is
undefined.  A distance is a product with the inverse of the innovation covariance, computed by two
triangular solves, and it comes out undefined where a solve overflows, although the gain, the change
and the corrected covariance are all finite.

* `Tracker.gate_holds_unless_undefined` : what is applied is within the gate exactly if its distance is
  defined; what is above is never applied, and whatever is not above is written if it can be.
* `Tracker.undefined_distance_passes_gate` : a position beyond all measure is applied.
-/

namespace PoseFilter

open FilterState

namespace Tracker

section Gate

variable {α : Type} [Spectral α] {V : Type} {t : Tracker α}
  {model : MeasurementModel (PoseState α) V α} {g : α}

/-- **When a correction is applied**: it can be computed, its distance is not beyond the gate, and it
can be written. -/
theorem applied_iff {c : Correction (PoseState α) α PoseState.dim model.dim}
    (hc : Correction.begin t.state model t.config.params = c) {d : α} :
    (t.correct model).result = .applied d ↔
      c.rejection = none ∧ beyondGate t.config.gate c.numbers.mahalanobisSquared = false ∧
        c.commit.result = .ok () ∧ c.numbers.mahalanobisSquared = d := by
  change (t.attempt model).1 = .applied d ↔ _
  rw [Correction.commit]
  cases hr : c.rejection with
  | some e =>
    rw [attempt_of_rejection hc hr]
    simp
  | none =>
    cases hg : beyondGate t.config.gate c.numbers.mahalanobisSquared with
    | true =>
      rw [attempt_of_beyondGate hc hr hg]
      simp
    | false =>
      cases hs : c.corrected with
      | error e =>
        rw [attempt_of_uncorrected hc hr hg hs, Update.ofExcept_error]
        simp
      | ok s =>
        rw [attempt_of_corrected hc hr hg hs, Update.ofExcept_ok]
        simp

theorem passed_of_applied (hgate : t.config.gate = some g) {d : α}
    (h : (t.correct model).result = .applied d) :
    ¬g < d := by
  obtain ⟨-, hg, -, rfl⟩ := (applied_iff rfl).1 h
  rw [hgate] at hg
  exact of_decide_eq_false hg

theorem correct_of_above (hgate : t.config.gate = some g)
    {c : Correction (PoseState α) α PoseState.dim model.dim}
    (hc : Correction.begin t.state model t.config.params = c) (hr : c.rejection = none)
    (h : g < c.numbers.mahalanobisSquared) :
    (t.correct model).result = .rejectedOutlier c.numbers.mahalanobisSquared ∧
      (t.correct model).tracker.state = t.state := by
  have hg : beyondGate t.config.gate c.numbers.mahalanobisSquared = true := by
    rw [hgate]
    exact decide_eq_true h
  simp only [correct, attempt_of_beyondGate hc hr hg, true_and]
  rfl

theorem correct_of_not_above (hgate : t.config.gate = some g)
    {c : Correction (PoseState α) α PoseState.dim model.dim}
    (hc : Correction.begin t.state model t.config.params = c) (hr : c.rejection = none)
    (h : ¬g < c.numbers.mahalanobisSquared) :
    (t.correct model).result = .applied c.numbers.mahalanobisSquared ↔ c.commit.result = .ok () := by
  have hg : beyondGate t.config.gate c.numbers.mahalanobisSquared = false := by
    rw [hgate]
    exact decide_eq_false h
  rw [applied_iff hc]
  exact ⟨fun h => h.2.2.1, fun h => ⟨hr, hg, h, rfl⟩⟩

theorem applied_of_proposal (hgate : t.config.gate = some g)
    {q : Proposal α PoseState.dim model.dim}
    (hq : propose t.state model t.config.params = .ok q) (hfinite : q.change.isFinite = true)
    (hmean : (t.state.retract q.change).meanIsFinite = true)
    {p : Mat α PoseState.dim PoseState.dim} (hp : t.state.covariance = p.toGrid)
    (hpsd : (Correction.correctedCovariance p q).isPositiveSemidefinite = true)
    (h : ¬g < q.mahalanobisSquared) :
    (t.correct model).result = .applied q.mahalanobisSquared := by
  let c := Correction.begin t.state model t.config.params
  have hnumbers : c.numbers = q := by rw [Correction.numbers, show c.proposal = .ok q from hq]
  have hr : c.rejection = none := Correction.rejection_eq_none_iff.2 ⟨q, hq, hfinite⟩
  have hcorrected := (Correction.corrected_of_proposal (c := c) hp hq).trans
    ((if_pos (Bool.and_eq_true_iff.2 ⟨hfinite, hmean⟩)).trans (if_pos hpsd))
  rw [← hnumbers] at h ⊢
  rw [correct_of_not_above hgate rfl hr h, Correction.commit, hcorrected, Update.ofExcept_ok]

end Gate

/-- **The gate holds unless a distance is undefined.**  For every tracker with a gate above zero, every
state and every measurement model: what is applied is within the gate exactly if its distance is
defined.  A correction that can be computed is turned away and leaves the state as it was if its
distance is above the gate; if it is not above, be it below or undefined, the correction is applied
whenever it can be written. -/
theorem gate_holds_unless_undefined {V : Type} (t : Tracker Float)
    (model : MeasurementModel (PoseState Float) V Float) {g : Float}
    (hgate : t.config.gate = some g) (hg : 0 < g) :
    (∀ d, (t.correct model).result = .applied d → (d ≤ g ↔ d.isNaN = false)) ∧
    ∀ c, Correction.begin t.state model t.config.params = c → c.rejection = none →
      ∀ d, c.numbers.mahalanobisSquared = d →
        (g < d → (t.correct model).result = .rejectedOutlier d ∧
          (t.correct model).tracker.state = t.state) ∧
        (¬g < d → ((t.correct model).result = .applied d ↔ c.commit.result = .ok ())) := by
  constructor
  · intro d h
    exact Doubles.le_iff_of_not_lt (Doubles.isNaN_of_lt hg) (passed_of_applied hgate h)
  · rintro c hc hr _ rfl
    exact ⟨correct_of_above hgate hc hr, correct_of_not_above hgate hc hr⟩

/-- A tracker with a gate at 16 applies a reading of a position within the gate or with an undefined
distance, and no other. -/
theorem gate_holds_unless_undefined_sixteen :
    let t : Tracker Float :=
      ⟨⟨1⟩, { TrackerConfig.standard with gate := some 16 }, PoseState.initial, 0, 0, 0, 0, 0⟩
    (0 : Float) < 16 ∧ ∀ value d,
      (t.correct (Measurement.position value (Mat.scalar 3 1))).result = .applied d →
        (d ≤ 16 ↔ d.isNaN = false) := by
  intro t
  have hg : (0 : Float) < 16 := by decide
  exact ⟨hg, fun value => (gate_holds_unless_undefined t _ rfl hg).1⟩

/-! ### An undefined distance -/

theorem rotation_in_range : 3 + 2 < PoseState.dim := by decide

/-- The turn by nothing.  The logic does not know the cosine of zero, so it is assumed. -/
theorem ofVector_zero_of_cos (hcos : Float.cos 0 = 1) :
    Rotation.ofVector (Vec3.zero : Vec3 Float) = Quaternion.identity := by
  let half : Vec3 Float := Vec3.zero.scale 0.5
  have hangle : half.norm = 0 := by decide +kernel
  have hturn : Rotation.ofVector Vec3.zero =
      (Quaternion.ofParts 1 (half.scale (Rotation.sinc 0))).normalized := by
    change (Quaternion.ofParts (Float.cos half.norm)
      (half.scale (Rotation.sinc half.norm))).normalized = _
    rw [hangle, hcos]
  rw [hturn]
  ext <;> decide +kernel

theorem meanIsFinite_retract (hcos : Float.cos 0 = 1) {s : PoseState Float}
    {δ : Column Float PoseState.dim} (hs : s.orientation = Quaternion.identity)
    (hx : (PoseState.block δ 3 rotation_in_range).x = 0)
    (hy : (PoseState.block δ 3 rotation_in_range).y = 0)
    (hz : (PoseState.block δ 3 rotation_in_range).z = 0) :
    (s.retract δ).meanIsFinite = ((s.retract δ).position.isFinite &&
      (s.retract δ).velocity.isFinite && (s.retract δ).angularVelocity.isFinite) := by
  have hδ : PoseState.block δ 3 rotation_in_range = Vec3.zero := Vec3.ext hx hy hz
  have hkept : (Quaternion.identity * Quaternion.identity : Quaternion Float).normalized.isFinite =
      true := by decide +kernel
  simp only [PoseState.meanIsFinite, PoseState.retract, hs, hδ, ofVector_zero_of_cos hcos, hkept,
    Bool.and_true]

/-- A proposal of undefined distance that can be written: it moves no flat part of the mean out of the
finite range and turns nothing, and the corrected covariance is semi-definite. -/
def undefinedYetWritable {m : Nat} (s : PoseState Float) (p : Mat Float PoseState.dim PoseState.dim)
    (q : Proposal Float PoseState.dim m) : Bool :=
  q.mahalanobisSquared.isNaN && q.change.isFinite &&
    ((s.retract q.change).position.isFinite && (s.retract q.change).velocity.isFinite &&
      (s.retract q.change).angularVelocity.isFinite) &&
    (decide ((PoseState.block q.change 3 rotation_in_range).x = 0) &&
      decide ((PoseState.block q.change 3 rotation_in_range).y = 0) &&
      decide ((PoseState.block q.change 3 rotation_in_range).z = 0)) &&
    (Correction.correctedCovariance p q).isPositiveSemidefinite

theorem applied_of_undefinedYetWritable (hcos : Float.cos 0 = 1) {V : Type} {t : Tracker Float}
    {model : MeasurementModel (PoseState Float) V Float} {g : Float}
    (hgate : t.config.gate = some g) (hturned : t.state.orientation = Quaternion.identity)
    {p : Mat Float PoseState.dim PoseState.dim} (hp : t.state.covariance = p.toGrid)
    {q : Proposal Float PoseState.dim model.dim}
    (hq : propose t.state model t.config.params = .ok q)
    (h : undefinedYetWritable t.state p q = true) :
    ∃ d, (t.correct model).result = .applied d ∧ d.isNaN = true ∧ ¬d ≤ g := by
  simp only [undefinedYetWritable, Bool.and_eq_true, decide_eq_true_eq] at h
  obtain ⟨⟨⟨⟨hnan, hfinite⟩, hflat⟩, ⟨hx, hy⟩, hz⟩, hpsd⟩ := h
  have hmean : (t.state.retract q.change).meanIsFinite = true := by
    rw [meanIsFinite_retract hcos hturned hx hy hz]
    simpa only [Bool.and_eq_true] using hflat
  -- undefined is neither above nor within
  have hnot : ¬g < q.mahalanobisSquared := by
    intro hlt
    cases (Doubles.isNaN_of_lt hlt).symm.trans hnan
  have hnotle : ¬q.mahalanobisSquared ≤ g := by
    intro hle
    cases (Doubles.isNaN_of_le hle).symm.trans hnan
  exact ⟨_, applied_of_proposal hgate hq hfinite hmean hp hpsd hnot, hnan, hnotle⟩

/-- A position beyond all measure is such a proposal to a body that is known to a variance of 0.15. -/
theorem undefinedYetWritable_far :
    (propose (PoseState.initial.resetCovariance 0.15)
        (Measurement.position (⟨1.7e308, 0, 0⟩ : Vec3 Float) (Mat.scalar 3 0.1))
        UnscentedParams.standard).toOption.any
      (undefinedYetWritable (PoseState.initial.resetCovariance 0.15)
        (Mat.scalar PoseState.dim 0.15)) = true := by
  decide +kernel

/-- Behind a gate at 16 a body at the origin is moved by some 10³⁰⁸, at a distance that is undefined. -/
theorem undefined_distance_passes_gate :
    let t : Tracker Float := ⟨⟨1⟩, { TrackerConfig.standard with gate := some 16 },
      PoseState.initial.resetCovariance 0.15, 0, 0, 0, 0, 0⟩
    let model := Measurement.position (⟨1.7e308, 0, 0⟩ : Vec3 Float) (Mat.scalar 3 0.1)
    Float.cos 0 ≠ 1 ∨
      ∃ d, (t.correct model).result = .applied d ∧ d.isNaN = true ∧ ¬d ≤ 16 := by
  intro t model
  by_cases hcos : Float.cos 0 = 1
  · obtain ⟨q, hq, hwritable⟩ := exists_ok_of_any undefinedYetWritable_far
    exact .inr (applied_of_undefinedYetWritable hcos rfl rfl rfl hq hwritable)
  · exact .inl hcos

end Tracker

end PoseFilter
