import PoseFilter.Proofs.Drift
import PoseFilter.Proofs.Frames

/-!
# The sign of a quaternion

`q` and `-q` turn space the same way, so which of them stands for an orientation is a convention that
can be made anew for every measurement.  The filter looks at orientations through rotations `a b⁻¹`
that are taken the short way round, and the short way is the same for `a b⁻¹` and `-a b⁻¹` unless both
ways are half a turn (`Rotation.toVector_neg`).

* `Quaternion.SameTurn` : equal up to sign; `Rotation.difference_of_sameTurn` : the rotation between two
  orientations does not depend on their signs.
* `PoseState.symmetry_opposite` : the other sign of a state is the same state in a frame turned by
  `-1`, and so a symmetry.
* `Tracker.Unambiguous` : an input that is not half a turn away from what is predicted.
* `Tracker.sign_unobservable` : no run can tell the signs apart.
-/

namespace PoseFilter

/-! ### Signs -/

namespace Quaternion

/-- The same turn of space: equal up to sign. -/
def SameTurn (q q' : Quaternion ℝ) : Prop := q' = q ∨ q' = -q

@[simp]
theorem neg_w (q : Quaternion ℝ) : (-q).w = -q.w := rfl

@[simp]
theorem neg_x (q : Quaternion ℝ) : (-q).x = -q.x := rfl

@[simp]
theorem neg_y (q : Quaternion ℝ) : (-q).y = -q.y := rfl

@[simp]
theorem neg_z (q : Quaternion ℝ) : (-q).z = -q.z := rfl

protected theorem neg_neg (q : Quaternion ℝ) : - -q = q := by
  ext <;> exact neg_neg _

protected theorem neg_mul (a b : Quaternion ℝ) : -a * b = -(a * b) := by
  ext <;> simp only [mul_w, mul_x, mul_y, mul_z, neg_w, neg_x, neg_y, neg_z] <;> ring

protected theorem mul_neg (a b : Quaternion ℝ) : a * -b = -(a * b) := by
  ext <;> simp only [mul_w, mul_x, mul_y, mul_z, neg_w, neg_x, neg_y, neg_z] <;> ring

theorem isUnit_neg {q : Quaternion ℝ} (hq : q.IsUnit) : (-q).IsUnit := by
  rw [IsUnit, ← hq]
  simp [normSq]

theorem SameTurn.mul_conj {a a' b b' : Quaternion ℝ} (ha : a.SameTurn a') (hb : b.SameTurn b') :
    (a * b.conj).SameTurn (a' * b'.conj) := by
  rcases ha with rfl | rfl
  · rcases hb with rfl | rfl
    · exact .inl rfl
    · exact .inr (by rw [← neg_conj, Quaternion.mul_neg])
  · rcases hb with rfl | rfl
    · exact .inr (Quaternion.neg_mul _ _)
    · exact .inl (by rw [← neg_conj, Quaternion.neg_mul, Quaternion.mul_neg, Quaternion.neg_neg])

end Quaternion

namespace Rotation

/-- **The short way round is the same for both signs**, unless neither way is the short one. -/
theorem toVector_neg {q : Quaternion ℝ} (h : q.w ≠ 0) : toVector (-q) = toVector q := by
  have hshort : shortLn (-q) = shortLn q := by
    unfold shortLn
    rcases lt_or_gt_of_ne h with hneg | hpos
    · have hopposite : ¬(-q).w < 0 := not_lt.2 (neg_nonneg.2 hneg.le)
      rw [if_pos hneg, if_neg hopposite]
    · have hopposite : (-q).w < 0 := neg_neg_iff_pos.2 hpos
      rw [if_pos hopposite, if_neg (not_lt.2 hpos.le), Quaternion.neg_neg]
  rw [toVector, hshort, toVector]

theorem difference_of_sameTurn {a a' b b' : Quaternion ℝ} (ha : a.SameTurn a') (hb : b.SameTurn b')
    (h : (a * b.conj).w ≠ 0) : difference a' b' = difference a b := by
  rcases ha.mul_conj hb with heq | heq
  · rw [difference, heq, difference]
  · rw [difference, heq, toVector_neg h, difference]

end Rotation

/-! ### States and readings of the other sign -/

/-- The same state with the other sign of its orientation. -/
noncomputable def PoseState.opposite (s : PoseState ℝ) : PoseState ℝ :=
  { s with orientation := -s.orientation }

/-- The orientation that a reading measures. -/
def Reading.orientation? : Reading ℝ → Option (Quaternion ℝ)
  | orientation value _ => some value
  | pose value _ => some value.orientation
  | _ => none

/-- The same reading with the other sign of the orientation that it measures. -/
noncomputable def Reading.opposite : Reading ℝ → Reading ℝ
  | orientation value noise => orientation (-value) noise
  | position value noise => position value noise
  | pose value noise => pose { value with orientation := -value.orientation } noise
  | angularVelocity value noise => angularVelocity value noise

/-- The same input with the other sign of the orientation that it measures. -/
noncomputable def Input.opposite : Input ℝ → Input ℝ
  | timeStep time => timeStep time
  | measurement message => measurement { message with reading := message.reading.opposite }

/-- The frame whose orientations have the other sign. -/
noncomputable def Frame.opposite : Frame where
  turn := -Quaternion.identity
  isUnit := by simp [Quaternion.IsUnit, Quaternion.normSq, Quaternion.identity]
  shift := Vec3.zero

namespace PoseState

theorem opposite_eq_seenFrom : opposite = seenFrom Frame.opposite := by
  funext s
  have hposition : s.position + Vec3.zero = s.position := by
    ext <;> exact add_zero _
  have horientation : s.orientation * -Quaternion.identity = -s.orientation := by
    ext <;> simp [Quaternion.mul_w, Quaternion.mul_x, Quaternion.mul_y, Quaternion.mul_z,
      Quaternion.identity]
  simp only [opposite, seenFrom, Frame.opposite, hposition, horientation]

theorem symmetry_id : PoseState.Symmetry (id : PoseState ℝ → PoseState ℝ) where
  covariance_eq _ := rfl
  retract_eq _ _ := rfl
  withCovariance_eq _ _ := rfl
  meanIsFinite_eq _ := rfl
  advanceMean_eq _ _ _ := rfl

theorem symmetry_opposite : PoseState.Symmetry opposite :=
  opposite_eq_seenFrom ▸ symmetry_seenFrom _

end PoseState

theorem Reading.matches_opposite {φ : PoseState ℝ → PoseState ℝ}
    (hφ : φ = id ∨ φ = PoseState.opposite) {r r' : Reading ℝ} (hr : r' = r ∨ r' = r.opposite)
    {s : PoseState ℝ}
    (h : ∀ q, r.orientation? = some q → (q * s.orientation.conj).w ≠ 0) : r.Matches φ s r' := by
  have hdifference : ∀ x y, r.model.difference (r.model.predict (φ x)) (r.model.predict (φ y)) =
      r.model.difference (r.model.predict x) (r.model.predict y) := by
    rcases hφ with rfl | rfl
    · exact fun _ _ => rfl
    · rw [PoseState.opposite_eq_seenFrom]
      exact difference_seenFrom _ r
  have hposition : (φ s).position = s.position := by
    rcases hφ with rfl | rfl <;> rfl
  have hvelocity : (φ s).angularVelocity = s.angularVelocity := by
    rcases hφ with rfl | rfl <;> rfl
  have hturn : s.orientation.SameTurn (φ s).orientation := by
    rcases hφ with rfl | rfl
    · exact .inl rfl
    · exact .inr rfl
  -- only the measured orientation has a sign, and it enters through the residual alone
  cases r with
  | orientation q n =>
    obtain ⟨q', hq, rfl⟩ : ∃ q', q.SameTurn q' ∧ r' = orientation q' n := by
      rcases hr with rfl | rfl
      · exact ⟨q, .inl rfl, rfl⟩
      · exact ⟨-q, .inr rfl, rfl⟩
    exact .intro hdifference
      (congrArg Measurement.components (Rotation.difference_of_sameTurn hq hturn (h q rfl)))
  | position z n =>
    obtain rfl : r' = position z n := hr.elim id id
    exact .intro hdifference
      (congrArg (fun p : Vec3 ℝ => Measurement.components (z - p)) hposition)
  | pose z n =>
    obtain ⟨q', hq, rfl⟩ : ∃ q', z.orientation.SameTurn q' ∧ r' = pose ⟨z.position, q'⟩ n := by
      rcases hr with rfl | rfl
      · exact ⟨z.orientation, .inl rfl, rfl⟩
      · exact ⟨-z.orientation, .inr rfl, rfl⟩
    exact .intro hdifference (congrArg₂ (fun (p δ : Vec3 ℝ) =>
      Measurement.components (z.position - p) ++ Measurement.components δ) hposition
      (Rotation.difference_of_sameTurn hq hturn (h _ rfl)))
  | angularVelocity z n =>
    obtain rfl : r' = angularVelocity z n := hr.elim id id
    exact .intro hdifference
      (congrArg (fun ω : Vec3 ℝ => Measurement.components (z - ω)) hvelocity)

/-! ### Runs -/

namespace Tracker

/-- The orientation that an input measures, if any, is not half a turn away from the orientation that
is predicted for its time: the rotation from the one to the other has a scalar part. -/
def Unambiguous [Diagonalization] (t : Tracker ℝ) : Input ℝ → Prop
  | .timeStep _ => True
  | .measurement message =>
    message.body = t.handle → ∀ s, t.foreseen message.timestamp = .ok s →
      ∀ q, message.reading.orientation? = some q → (q * s.orientation.conj).w ≠ 0

section Runs

variable [Diagonalization]

theorem matches_opposite {φ : PoseState ℝ → PoseState ℝ} (hφ : φ = id ∨ φ = PoseState.opposite)
    (t : Tracker ℝ) (input input' : Input ℝ) (h : t.Unambiguous input)
    (hinput : input' = input ∨ input' = input.opposite) : t.Matches φ input input' := by
  cases input with
  | timeStep time =>
    obtain rfl : input' = .timeStep time := hinput.elim id id
    exact .timeStep time
  | measurement message =>
    obtain ⟨reading, hreading, rfl⟩ : ∃ reading,
        (reading = message.reading ∨ reading = message.reading.opposite) ∧
          input' = .measurement { message with reading } := by
      rcases hinput with rfl | rfl
      · exact ⟨message.reading, .inl rfl, rfl⟩
      · exact ⟨message.reading.opposite, .inr rfl, rfl⟩
    exact .measurement fun hbody s hs => Reading.matches_opposite hφ hreading (h hbody s hs)

/-- **The sign of a quaternion cannot be observed.**  Give any of the measured orientations the other
sign, and give it to the orientation of the tracker or not, in a run in which no measured orientation
is exactly half a turn away from the predicted one.  Then every input comes to the same as before, and
after every input the tracker is the same but for the sign that its orientation was given at the
start. -/
theorem sign_unobservable (t : Tracker ℝ) {inputs inputs' : List (Input ℝ)}
    (hinputs : List.Forall₂ (fun input input' => input' = input ∨ input' = input.opposite)
      inputs inputs')
    (hrun : t.Throughout Unambiguous inputs) (n : Nat) :
    t.processAll (inputs'.take n) = t.processAll (inputs.take n) ∧
      (t.mapState PoseState.opposite).processAll (inputs'.take n) =
        ((t.processAll (inputs.take n)).1,
          (t.processAll (inputs.take n)).2.mapState PoseState.opposite) := by
  have htake := List.forall₂_take n hinputs
  exact ⟨processAll_mapState PoseState.symmetry_id (matches_opposite (.inl rfl)) htake (hrun.take n),
    processAll_mapState PoseState.symmetry_opposite (matches_opposite (.inr rfl)) htake
      (hrun.take n)⟩

end Runs

/-- A turning body whose orientation is measured with either sign. -/
theorem sign_unobservable_turning :
    let measured (q : Quaternion ℝ) : List (Input ℝ) :=
      [.measurement ⟨⟨1⟩, ⟨7⟩, 1, .orientation q (Mat.scalar 3 1)⟩, .timeStep 2]
    (turning.mapState PoseState.opposite).processAll (measured (-Quaternion.identity)) =
      ((turning.processAll (measured Quaternion.identity)).1,
        (turning.processAll (measured Quaternion.identity)).2.mapState PoseState.opposite) := by
  intro measured
  have hflipped : List.Forall₂ (fun input input' => input' = input ∨ input' = input.opposite)
      (measured Quaternion.identity) (measured (-Quaternion.identity)) :=
    .cons (.inr rfl) (.cons (.inl rfl) .nil)
  have hmeasured : turning.Unambiguous
      (.measurement ⟨⟨1⟩, ⟨7⟩, 1, .orientation Quaternion.identity (Mat.scalar 3 1)⟩) := by
    rintro - s hs q ⟨⟩
    -- the body has turned by one radian, and the rotation back has the scalar part `cos (1/2)`
    have hforeseen : turning.foreseen 1 = .ok (Motion.constantVelocity.flow PoseState.turning 1) :=
      (congrArg _ (sub_zero (1 : ℝ))).trans (PoseState.predicted_turning (.inr le_rfl))
    cases Except.ok.inj (hforeseen.symm.trans hs)
    have hw : (Quaternion.identity *
        (Motion.constantVelocity.flow PoseState.turning 1).orientation.conj).w = Real.cos (1 / 2) := by
      have hhalf : (PoseState.turning.angularVelocity.scale 0.5).norm = 1 / 2 := by
        have hone := PoseState.norm_half_turning 1
        rwa [Vec3.scale_one, abs_one] at hone
      rw [PoseState.orientation_flow_turning, Rotation.spin, hhalf]
      simp [Quaternion.mul_w, Quaternion.identity, Quaternion.ofParts]
    rw [hw]
    exact (Real.cos_pos_of_le_one (by norm_num [abs_le])).ne'
  exact (sign_unobservable turning hflipped ⟨hmeasured, trivial, trivial⟩ 2).2

end Tracker

end PoseFilter
