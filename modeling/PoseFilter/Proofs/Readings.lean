import PoseFilter.Proofs.Correction
import PoseFilter.Proofs.RotationMaps
import PoseFilter.Proofs.Transitions

/-!
# Exact corrections by the four readings

Each kind of reading observes some rows of the tangent space.  Moving a state along `o` and along
`-o` moves its prediction by opposite amounts, for rotations too (`Reading.deviation_neg`), so the
mean deviation of the sigma points vanishes and with it the only term of the innovation covariance
that could be negative.  The correction of a sound state by a reading with positive definite noise
therefore always succeeds, whatever the parameters (`Reading.propose_withNoise`).

* `Reading.row` : the tangent rows that a reading observes; `Reading.residual` : its innovation.
* `Reading.deviation_eq` : while every rotation is resolved, the deviation at `o` is the part of `o`
  that is observed.
-/

open Matrix

namespace PoseFilter

open FilterState MeasurementModel

/-! ### Entries -/

theorem entries_components (v : Vec3 ℝ) :
    (entries (Measurement.components v) : Fin 3 → ℝ) = ![v.x, v.y, v.z] := by
  funext j
  fin_cases j <;> rfl

theorem entries_components_append (u v : Vec3 ℝ) :
    (entries (Measurement.components u ++ Measurement.components v) : Fin 6 → ℝ) =
      ![u.x, u.y, u.z, v.x, v.y, v.z] := by
  funext j
  fin_cases j <;> simp [entries, Measurement.components]

theorem block_neg (o : Column ℝ PoseState.dim) (k : Nat) (h : k + 2 < PoseState.dim) :
    PoseState.block o.neg k h = -PoseState.block o k h := by
  ext <;> simp [PoseState.block, Column.neg, Column.ofFn, Column.get]

theorem PoseState.meanIsFinite_eq (s : PoseState ℝ) : s.meanIsFinite = true := by
  simp [meanIsFinite, Vec3.isFinite, Quaternion.isFinite]

theorem FilterState.covarianceIsFinite_eq {S : Type} [FilterState S ℝ] (s : S) :
    FilterState.covarianceIsFinite s = true :=
  Grid.isFinite_eq _

namespace Reading

/-! ### The readings as measurement models -/

/-- The row of the tangent space behind each component of a reading. -/
def row : (r : Reading ℝ) → Fin r.model.dim → Fin PoseState.dim
  | orientation _ _ => fun j : Fin 3 => ⟨j.val + 3, by have := j.isLt; unfold PoseState.dim; omega⟩
  | position _ _ => fun j : Fin 3 => ⟨j.val, by have := j.isLt; unfold PoseState.dim; omega⟩
  | pose _ _ => fun j : Fin 6 => ⟨j.val, by have := j.isLt; unfold PoseState.dim; omega⟩
  | angularVelocity _ _ => fun j : Fin 3 =>
    ⟨j.val + 9, by have := j.isLt; unfold PoseState.dim; omega⟩

/-- Whether a reading observes the orientation. -/
def turns : Reading ℝ → Bool
  | orientation _ _ => true
  | pose _ _ => true
  | _ => false

/-- Measured minus predicted: differences of the flat parts, and the rotation from the predicted to
the measured orientation. -/
noncomputable def residual : (r : Reading ℝ) → PoseState ℝ → Fin r.model.dim → ℝ
  | orientation q _, s =>
    let δ := Rotation.difference q s.orientation
    (![δ.x, δ.y, δ.z] : Fin 3 → ℝ)
  | position z _, s =>
    (![z.x - s.position.x, z.y - s.position.y, z.z - s.position.z] : Fin 3 → ℝ)
  | pose z _, s =>
    let δ := Rotation.difference z.orientation s.orientation
    (![z.position.x - s.position.x, z.position.y - s.position.y, z.position.z - s.position.z,
      δ.x, δ.y, δ.z] : Fin 6 → ℝ)
  | angularVelocity z _, s =>
    (![z.x - s.angularVelocity.x, z.y - s.angularVelocity.y, z.z - s.angularVelocity.z] :
      Fin 3 → ℝ)

theorem innovation_eq (r : Reading ℝ) (s : PoseState ℝ) : r.model.innovation s = r.residual s := by
  cases r with
  | orientation q n => exact entries_components _
  | position z n => exact entries_components _
  | pose z n => exact entries_components_append _ _
  | angularVelocity z n => exact entries_components _

theorem consistent_model (r : Reading ℝ) : r.model.Consistent := by
  have hflat : ∀ v : Vec3 ℝ, Measurement.components (v - v) = Array.replicate 3 (0 : ℝ) := fun v => by
    simp [Measurement.components, Array.replicate_succ]
  have hturn : ∀ q : Quaternion ℝ,
      Measurement.components (Rotation.difference q q) = Array.replicate 3 (0 : ℝ) := fun q => by
    rw [Rotation.difference_self]
    simp [Measurement.components, Array.replicate_succ, Vec3.zero]
  refine ⟨r.size_difference, ?_⟩
  cases r with
  | orientation q n => exact hturn
  | position z n => exact hflat
  | pose z n =>
    intro a
    change Measurement.components (a.position - a.position) ++
      Measurement.components (Rotation.difference a.orientation a.orientation) = _
    rw [hflat, hturn]
    exact Array.replicate_append_replicate
  | angularVelocity z n => exact hflat

/-! ### Deviations -/

variable {s : PoseState ℝ}

theorem difference_retract (hs : s.orientation.IsUnit) (o : Column ℝ PoseState.dim) :
    Rotation.difference (s.retract o).orientation s.orientation =
      Rotation.toVector (Rotation.ofVector (PoseState.block o 3 (by decide))) :=
  Rotation.difference_compose hs _

theorem deviation_cases (hs : s.orientation.IsUnit) (r : Reading ℝ) (o : Column ℝ PoseState.dim) :
    r.model.deviation s o =
      match r with
      | orientation _ _ =>
        let δ := Rotation.toVector (Rotation.ofVector (PoseState.block o 3 (by decide)))
        (![δ.x, δ.y, δ.z] : Fin 3 → ℝ)
      | position _ _ =>
        let p := PoseState.block o 0 (by decide)
        (![p.x, p.y, p.z] : Fin 3 → ℝ)
      | pose _ _ =>
        let p := PoseState.block o 0 (by decide)
        let δ := Rotation.toVector (Rotation.ofVector (PoseState.block o 3 (by decide)))
        (![p.x, p.y, p.z, δ.x, δ.y, δ.z] : Fin 6 → ℝ)
      | angularVelocity _ _ =>
        let ω := PoseState.block o 9 (by decide)
        (![ω.x, ω.y, ω.z] : Fin 3 → ℝ) := by
  cases r with
  | orientation q n =>
    refine (entries_components _).trans ?_
    rw [← difference_retract hs]
    rfl
  | position z n =>
    refine (entries_components _).trans ?_
    funext j
    fin_cases j <;> exact add_sub_cancel_left _ _
  | pose z n =>
    refine (entries_components_append _ _).trans ?_
    rw [← difference_retract hs]
    funext j
    fin_cases j <;> first | exact add_sub_cancel_left _ _ | rfl
  | angularVelocity z n =>
    refine (entries_components _).trans ?_
    funext j
    fin_cases j <;> exact add_sub_cancel_left _ _

/-- **Opposite moves of the state move the prediction by opposite amounts.** -/
theorem deviation_neg (hs : s.orientation.IsUnit) (r : Reading ℝ) (o : Column ℝ PoseState.dim) :
    r.model.deviation s o.neg = -r.model.deviation s o := by
  rw [deviation_cases hs, deviation_cases hs]
  cases r with
  | orientation q n =>
    simp only [block_neg, Rotation.toVector_ofVector_neg]
    funext j
    fin_cases j <;> rfl
  | position z n =>
    simp only [block_neg]
    funext j
    fin_cases j <;> rfl
  | pose z n =>
    simp only [block_neg, Rotation.toVector_ofVector_neg]
    funext j
    fin_cases j <;> rfl
  | angularVelocity z n =>
    simp only [block_neg]
    funext j
    fin_cases j <;> rfl

theorem deviation_eq (hs : s.orientation.IsUnit) (r : Reading ℝ) (o : Column ℝ PoseState.dim)
    (h : r.turns = true → Rotation.Resolved (PoseState.block o 3 (by decide))) :
    r.model.deviation s o = fun j => o.get (r.row j) := by
  rw [deviation_cases hs]
  cases r with
  | orientation q n =>
    simp only [Rotation.toVector_ofVector (h rfl)]
    funext j
    fin_cases j <;> rfl
  | position z n =>
    funext j
    fin_cases j <;> rfl
  | pose z n =>
    simp only [Rotation.toVector_ofVector (h rfl)]
    funext j
    fin_cases j <;> rfl
  | angularVelocity z n =>
    funext j
    fin_cases j <;> rfl

theorem sum_outerDeviations (hs : s.orientation.IsUnit) (r : Reading ℝ)
    (root : Mat ℝ PoseState.dim PoseState.dim) :
    ∑ i, r.model.outerDeviations s root i = 0 := by
  have hpairs := SigmaPoints.sum_succ_eq fun i =>
    r.model.deviation s ((SigmaPoints.offsetsOf root).row i)
  refine hpairs.trans (Finset.sum_eq_zero fun k _ => ?_)
  rw [SigmaPoints.row_back, deviation_neg hs, add_neg_cancel]

/-! ### The proposal of a reading -/

/-- **A reading with positive definite noise always gives a proposal**, from the same points and the
same deviations whatever the noise.  Its innovation covariance is the noise and the second moment of
the deviations, and the parameters enter through the points only. -/
theorem propose_withNoise [Diagonalization] (hs : s.orientation.IsUnit)
    {p : Mat ℝ PoseState.dim PoseState.dim} (hp : s.covariance = p.toGrid)
    (hpsd : p.toMatrix.PosSemidef) (r : Reading ℝ) {params : UnscentedParams ℝ}
    {w : SigmaWeights ℝ PoseState.dim} (hw : params.weights PoseState.dim = .ok w) :
    ∃ (root : Mat ℝ PoseState.dim PoseState.dim) (c : ℝ),
      SigmaPoints.generate s params = .ok (SigmaPoints.along s root w) ∧
      ∀ noise : Mat ℝ r.model.dim r.model.dim, noise.toMatrix.PosDef →
        Moments c (outerOffsets root) (r.model.outerDeviations s root) p.toMatrix noise.toMatrix
          (noise.toMatrix + moment c (r.model.outerDeviations s root)
            (r.model.outerDeviations s root))
          (moment c (outerOffsets root) (r.model.outerDeviations s root)) ∧
        propose s (r.model.withNoise noise) params = .ok (Proposal.ofMoments
          (noise.toMatrix + moment c (r.model.outerDeviations s root)
            (r.model.outerDeviations s root))
          (moment c (outerOffsets root) (r.model.outerDeviations s root)) (r.residual s)) := by
  have hbal := UnscentedParams.weights_spec hw
  obtain ⟨root, hg, hroot⟩ := SigmaPoints.generate_of_posSemidef (S := PoseState ℝ) hp hpsd hw
  have hshare : 0 ≤ 1 / (2 * w.spread) :=
    div_nonneg zero_le_one (mul_nonneg zero_le_two hbal.spread_pos.le)
  refine ⟨root, 1 / (2 * w.spread), hg, fun noise hnoise => ?_⟩
  have hmoments : Moments (1 / (2 * w.spread)) (outerOffsets root)
      (r.model.outerDeviations s root) p.toMatrix noise.toMatrix _ _ :=
    ⟨hshare, eq_moment_outerOffsets hbal.spread_pos hroot, rfl, rfl, hnoise⟩
  refine ⟨hmoments, ?_⟩
  -- without a mean deviation the term with `β - α²` is gone
  have hmean : (0 : Fin r.model.dim → ℝ) =
      (1 / (2 * w.spread)) • ∑ i, r.model.outerDeviations s root i := by
    rw [sum_outerDeviations hs, smul_zero]
  have hS : noise.toMatrix + moment (1 / (2 * w.spread)) (r.model.outerDeviations s root)
      (r.model.outerDeviations s root) = noise.toMatrix + moment (1 / (2 * w.spread))
        (r.model.outerDeviations s root) (r.model.outerDeviations s root) +
          (params.beta - params.alpha ^ 2) • vecMulVec 0 0 := by
    rw [vecMulVec_zero, smul_zero, add_zero]
  have hconsistent : (r.model.withNoise noise).Consistent :=
    ⟨r.consistent_model.size_difference, r.consistent_model.difference_self⟩
  have hcovariance : (r.model.withNoise noise).covariance s = noise.toGrid := rfl
  have hok := (propose_collapsed hconsistent hcovariance hnoise hbal hg rfl hmean hS).1
    hmoments.posDef_innovation
  have hinnovation : (r.model.withNoise noise).innovation s - 0 = r.residual s :=
    (sub_zero _).trans (r.innovation_eq s)
  exact hok.trans (congrArg (fun z => Except.ok (Proposal.ofMoments _ _ z)) hinnovation)

theorem propose_eq [Diagonalization] (hs : s.orientation.IsUnit)
    {p : Mat ℝ PoseState.dim PoseState.dim} (hp : s.covariance = p.toGrid)
    (hpsd : p.toMatrix.PosSemidef) (r : Reading ℝ) (hr : r.noise.toMatrix.PosDef)
    {params : UnscentedParams ℝ} {w : SigmaWeights ℝ PoseState.dim}
    (hw : params.weights PoseState.dim = .ok w) :
    ∃ (root : Mat ℝ PoseState.dim PoseState.dim) (c : ℝ),
      SigmaPoints.generate s params = .ok (SigmaPoints.along s root w) ∧
      Moments c (outerOffsets root) (r.model.outerDeviations s root) p.toMatrix r.noise.toMatrix
        (r.noise.toMatrix + moment c (r.model.outerDeviations s root)
          (r.model.outerDeviations s root))
        (moment c (outerOffsets root) (r.model.outerDeviations s root)) ∧
      propose s r.model params = .ok (Proposal.ofMoments
        (r.noise.toMatrix + moment c (r.model.outerDeviations s root)
          (r.model.outerDeviations s root))
        (moment c (outerOffsets root) (r.model.outerDeviations s root)) (r.residual s)) := by
  obtain ⟨root, c, hg, hnoise⟩ := propose_withNoise hs hp hpsd r hw
  obtain ⟨hmoments, hprop⟩ := hnoise r.noise hr
  refine ⟨root, c, hg, hmoments, ?_⟩
  cases r <;> exact hprop

end Reading

end PoseFilter
