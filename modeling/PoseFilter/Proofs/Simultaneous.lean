import PoseFilter.Proofs.Drift
import PoseFilter.Proofs.KalmanForm
import PoseFilter.Proofs.Soundness

/-!
# Readings at one time

Readings of position and angular velocity that are taken at one time can be processed in any order.
A correction by such a reading is linear, and in terms of the information `Λ = P⁻¹` it adds:

* `Λ' = Λ + Hᵀ R⁻¹ H` (`posterior_eq_inv`), and the gain is `K = Λ'⁻¹ Hᵀ R⁻¹` (`gain_eq_inv`), so
* with `Δ` the change since the first reading and `y` the residual there, `Λ' Δ' = Λ Δ + Hᵀ R⁻¹ y`.

`PoseState.Fused` keeps the two sums.  One reading adds its share to them (`Reading.corrected_fused`,
`Tracker.fused_process`), a list of readings the sum of the shares (`Tracker.fused_processAll`), and a
sum does not depend on the order.  Between two readings the tracker predicts over no time, which
changes nothing (`predicted_zero`).  The orientation is corrected by composing rotations; it is not
part of the sums, and the readings do not look at it.
-/

open Matrix

namespace PoseFilter

/-! ### Information adds -/

section Information

variable {n m : Nat} {Λ : Matrix (Fin n) (Fin n) ℝ} {R : Matrix (Fin m) (Fin m) ℝ}

theorem posDef_add_information (hΛ : Λ.PosDef) (hR : R.PosDef) (H : Matrix (Fin m) (Fin n) ℝ) :
    (Λ + Hᵀ * R⁻¹ * H).PosDef := by
  refine hΛ.add_posSemidef ?_
  rw [← Matrix.conjTranspose_eq_transpose_of_trivial]
  exact hR.inv.posSemidef.conjTranspose_mul_mul_same H

theorem posDef_observed (hΛ : Λ.PosDef) (hR : R.PosDef) (H : Matrix (Fin m) (Fin n) ℝ) :
    (R + H * Λ⁻¹ * Hᵀ).PosDef := by
  refine hR.add_posSemidef ?_
  rw [← Matrix.conjTranspose_eq_transpose_of_trivial]
  exact hΛ.inv.posSemidef.mul_mul_conjTranspose_same H

/-- **The corrected covariance is the inverse of the sum of informations.** -/
theorem posterior_eq_inv (hΛ : Λ.PosDef) (hR : R.PosDef) (H : Matrix (Fin m) (Fin n) ℝ) :
    Λ⁻¹ - Λ⁻¹ * Hᵀ * (R + H * Λ⁻¹ * Hᵀ)⁻¹ * (Λ⁻¹ * Hᵀ)ᵀ = (Λ + Hᵀ * R⁻¹ * H)⁻¹ := by
  have hsymm : Λ⁻¹ᵀ = Λ⁻¹ := (isSymm_of_posSemidef hΛ.inv.posSemidef).eq
  have hinv : R⁻¹⁻¹ = R :=
    Matrix.nonsing_inv_nonsing_inv R ((Matrix.isUnit_iff_isUnit_det R).1 hR.isUnit)
  have hwoodbury := Matrix.add_mul_mul_inv_eq_sub Λ Hᵀ R⁻¹ H hΛ.isUnit hR.inv.isUnit
    (by rw [hinv]; exact (posDef_observed hΛ hR H).isUnit)
  rw [hwoodbury, hinv, Matrix.transpose_mul, Matrix.transpose_transpose, hsymm]
  simp only [Matrix.mul_assoc]

theorem gain_eq_inv (hΛ : Λ.PosDef) (hR : R.PosDef) (H : Matrix (Fin m) (Fin n) ℝ) :
    Λ⁻¹ * Hᵀ * (R + H * Λ⁻¹ * Hᵀ)⁻¹ = (Λ + Hᵀ * R⁻¹ * H)⁻¹ * (Hᵀ * R⁻¹) := by
  have hunitR := (Matrix.isUnit_iff_isUnit_det R).1 hR.isUnit
  have hunitΛ := (Matrix.isUnit_iff_isUnit_det Λ).1 hΛ.isUnit
  have hunitS := (Matrix.isUnit_iff_isUnit_det _).1 (posDef_observed hΛ hR H).isUnit
  have hunit' := (Matrix.isUnit_iff_isUnit_det _).1 (posDef_add_information hΛ hR H).isUnit
  -- both sides agree after `Λ + Hᵀ R⁻¹ H` on the left and `S` on the right
  have hcross : (Λ + Hᵀ * R⁻¹ * H) * (Λ⁻¹ * Hᵀ) = Hᵀ * R⁻¹ * (R + H * Λ⁻¹ * Hᵀ) := by
    rw [Matrix.add_mul, Matrix.mul_add, Matrix.mul_nonsing_inv_cancel_left Λ _ hunitΛ,
      Matrix.mul_assoc Hᵀ R⁻¹ R, Matrix.nonsing_inv_mul R hunitR, Matrix.mul_one]
    simp only [Matrix.mul_assoc]
  calc Λ⁻¹ * Hᵀ * (R + H * Λ⁻¹ * Hᵀ)⁻¹
      = (Λ + Hᵀ * R⁻¹ * H)⁻¹ * ((Λ + Hᵀ * R⁻¹ * H) * (Λ⁻¹ * Hᵀ)) * (R + H * Λ⁻¹ * Hᵀ)⁻¹ := by
        rw [Matrix.nonsing_inv_mul_cancel_left _ _ hunit']
    _ = (Λ + Hᵀ * R⁻¹ * H)⁻¹ * (Hᵀ * R⁻¹) := by
        rw [hcross, ← Matrix.mul_assoc, Matrix.mul_nonsing_inv_cancel_right _ _ hunitS]

end Information

namespace Reading

/-- The information that a reading adds. -/
noncomputable def information (r : Reading ℝ) : Matrix (Fin PoseState.dim) (Fin PoseState.dim) ℝ :=
  r.selectorᵀ * r.noise.toMatrix⁻¹ * r.selector

/-- The residual of a reading at a state, weighed by what the reading tells about the tangent rows. -/
noncomputable def evidence (r : Reading ℝ) (s : PoseState ℝ) : Fin PoseState.dim → ℝ :=
  (r.selectorᵀ * r.noise.toMatrix⁻¹) *ᵥ r.residual s

end Reading

/-! ### States that have taken up readings -/

/-- The mean of `s` is that of `base` moved along `δ`, the orientation apart. -/
structure PoseState.MovedBy (base : PoseState ℝ) (δ : Fin PoseState.dim → ℝ) (s : PoseState ℝ) :
    Prop where
  position : s.position = base.position + block (Column.ofFn δ) 0 (by decide)
  velocity : s.velocity = base.velocity + block (Column.ofFn δ) 6 (by decide)
  angularVelocity : s.angularVelocity = base.angularVelocity + block (Column.ofFn δ) 9 (by decide)

/-- The state `s` comes from `base` by readings with the information `Λ` in total, the prior
included, and with the evidence `η`. -/
structure PoseState.Fused (base : PoseState ℝ) (Λ : Matrix (Fin PoseState.dim) (Fin PoseState.dim) ℝ)
    (η : Fin PoseState.dim → ℝ) (s : PoseState ℝ) : Prop where
  unit : s.orientation.IsUnit
  posDef : Λ.PosDef
  covariance : s.covariance = (Mat.ofMatrix Λ⁻¹).toGrid
  moved : base.MovedBy (Λ⁻¹ *ᵥ η) s

namespace PoseState

theorem block_ofFn_add (δ δ' : Fin dim → ℝ) (k : Nat) (h : k + 2 < dim) :
    block (Column.ofFn (δ + δ')) k h = block (Column.ofFn δ) k h + block (Column.ofFn δ') k h := by
  ext <;> simp [block, Column.ofFn]

theorem MovedBy.zero (s : PoseState ℝ) : s.MovedBy 0 s := by
  have hzero : ∀ v : Vec3 ℝ, ∀ k (h : k + 2 < dim),
      v = v + block (Column.ofFn (0 : Fin dim → ℝ)) k h := by
    intro v k h
    ext <;> simp [block, Column.ofFn]
  exact ⟨hzero _ 0 _, hzero _ 6 _, hzero _ 9 _⟩

theorem MovedBy.retract {base s : PoseState ℝ} {δ : Fin dim → ℝ} (h : base.MovedBy δ s)
    (δ' : Fin dim → ℝ) : base.MovedBy (δ + δ') (s.retract (Column.ofFn δ')) := by
  have hadd : ∀ u v w : Vec3 ℝ, u + v + w = u + (v + w) := fun u v w => by
    ext <;> simp [add_assoc]
  constructor
  · rw [block_ofFn_add, ← hadd, ← h.position]
    rfl
  · rw [block_ofFn_add, ← hadd, ← h.velocity]
    rfl
  · rw [block_ofFn_add, ← hadd, ← h.angularVelocity]
    rfl

end PoseState

/-- **The residual of a linear reading** is that at the base less the observed part of the move. -/
theorem Reading.residual_movedBy {base s : PoseState ℝ} {δ : Fin PoseState.dim → ℝ}
    (h : base.MovedBy δ s) {r : Reading ℝ} (hr : r.turns = false) :
    r.residual s = r.residual base - r.selector *ᵥ δ := by
  have hentry : ∀ z b : ℝ, ∀ k : Fin PoseState.dim, z - (b + (Column.ofFn δ)[k.val]) = z - b - δ k := by
    intro z b k
    simp only [Column.ofFn, Vector.getElem_ofFn]
    ring
  rw [selector_mulVec]
  cases r with
  | orientation q n => cases hr
  | position z n =>
    simp only [residual, h.position]
    funext j
    fin_cases j
    · exact hentry z.x base.position.x ⟨0, by decide⟩
    · exact hentry z.y base.position.y ⟨1, by decide⟩
    · exact hentry z.z base.position.z ⟨2, by decide⟩
  | pose z n => cases hr
  | angularVelocity z n =>
    simp only [residual, h.angularVelocity]
    funext j
    fin_cases j
    · exact hentry z.x base.angularVelocity.x ⟨9, by decide⟩
    · exact hentry z.y base.angularVelocity.y ⟨10, by decide⟩
    · exact hentry z.z base.angularVelocity.z ⟨11, by decide⟩

/-- What is known determines all but the orientation. -/
theorem PoseState.Fused.eq {base s s' : PoseState ℝ}
    {Λ : Matrix (Fin PoseState.dim) (Fin PoseState.dim) ℝ} {η : Fin PoseState.dim → ℝ}
    (h : base.Fused Λ η s) (h' : base.Fused Λ η s') :
    s' = { s with orientation := s'.orientation } := by
  have hposition := h'.moved.position.trans h.moved.position.symm
  have hvelocity := h'.moved.velocity.trans h.moved.velocity.symm
  have hangular := h'.moved.angularVelocity.trans h.moved.angularVelocity.symm
  have hcovariance := h'.covariance.trans h.covariance.symm
  rw [← hposition, ← hvelocity, ← hangular, ← hcovariance]

theorem PoseState.Sound.fused {s : PoseState ℝ} (hs : s.Sound) :
    ∃ Λ : Matrix (Fin PoseState.dim) (Fin PoseState.dim) ℝ, s.Fused Λ 0 s := by
  obtain ⟨p, hp, hpd⟩ := hs.posDef
  refine ⟨p.toMatrix⁻¹, hs.unit, hpd.inv, ?_, ?_⟩
  · have hunit := (Matrix.isUnit_iff_isUnit_det p.toMatrix).1 hpd.isUnit
    rw [Matrix.nonsing_inv_nonsing_inv _ hunit, Mat.ofMatrix_toMatrix, hp]
  · rw [mulVec_zero]
    exact .zero s

theorem PoseState.Fused.sound {base s : PoseState ℝ}
    {Λ : Matrix (Fin PoseState.dim) (Fin PoseState.dim) ℝ} {η : Fin PoseState.dim → ℝ}
    (h : base.Fused Λ η s) : s.Sound :=
  ⟨h.unit, _, h.covariance, by rw [Mat.toMatrix_ofMatrix]; exact h.posDef.inv⟩

section Correct

variable [Diagonalization]

theorem Reading.propose_linear {s : PoseState ℝ} (hs : s.orientation.IsUnit)
    {p : Mat ℝ PoseState.dim PoseState.dim} (hp : s.covariance = p.toGrid)
    (hpsd : p.toMatrix.PosSemidef) {r : Reading ℝ} (hr : r.noise.toMatrix.PosDef)
    (hlinear : r.turns = false) {params : UnscentedParams ℝ} {w : SigmaWeights ℝ PoseState.dim}
    (hw : params.weights PoseState.dim = .ok w) :
    propose s r.model params = .ok (Proposal.ofMoments
      (r.noise.toMatrix + r.selector * p.toMatrix * r.selectorᵀ) (p.toMatrix * r.selectorᵀ)
        (r.residual s)) := by
  obtain ⟨root, share, -, hmoments, hprop⟩ := propose_eq hs hp hpsd r hr hw
  have hdev : r.model.outerDeviations s root = fun i => r.selector *ᵥ outerOffsets root i :=
    outerDeviations_eq hs fun ht => by rw [hlinear] at ht; cases ht
  have hcross : moment share (outerOffsets root) (r.model.outerDeviations s root) =
      p.toMatrix * r.selectorᵀ := by
    rw [hdev, moment_mulVec_right, ← hmoments.prior]
  have hobserved : moment share (r.model.outerDeviations s root) (r.model.outerDeviations s root) =
      r.selector * p.toMatrix * r.selectorᵀ := by
    have hmoment := moment_mulVec (w := share) (outerOffsets root) r.selector
    rw [hdev, hmoment, ← hmoments.prior]
  rwa [hcross, hobserved] at hprop

/-- **One linear reading adds its share** to what is known. -/
theorem Reading.corrected_fused {base s : PoseState ℝ}
    {Λ : Matrix (Fin PoseState.dim) (Fin PoseState.dim) ℝ} {η : Fin PoseState.dim → ℝ}
    (hs : base.Fused Λ η s) {r : Reading ℝ} (hr : r.noise.toMatrix.PosDef)
    (hlinear : r.turns = false) {params : UnscentedParams ℝ} {w : SigmaWeights ℝ PoseState.dim}
    (hw : params.weights PoseState.dim = .ok w) :
    ∃ s', (Correction.begin s r.model params).corrected = .ok s' ∧
      base.Fused (Λ + r.information) (η + r.evidence base) s' := by
  set H := r.selector
  set R := r.noise.toMatrix
  set Λ' := Λ + r.information with hΛ'
  have hpost := posterior_eq_inv hs.posDef hr H
  have hposDef : Λ'.PosDef := posDef_add_information hs.posDef hr H
  have hunit' := (Matrix.isUnit_iff_isUnit_det _).1 hposDef.isUnit
  have hprop := propose_linear hs.unit hs.covariance
    (by rw [Mat.toMatrix_ofMatrix]; exact hs.posDef.inv.posSemidef) hr hlinear hw
  rw [Mat.toMatrix_ofMatrix] at hprop
  have hcommit := Correction.commit_ofMoments (c := Correction.begin s r.model params) hprop
    hs.covariance (posDef_observed hs.posDef hr H)
    (by rw [Mat.toMatrix_ofMatrix, hpost]; exact hposDef.inv.posSemidef)
  have hwritten := hcommit.trans (if_pos (PoseState.meanIsFinite_eq _))
  rw [Mat.toMatrix_ofMatrix, hpost, gain_eq_inv hs.posDef hr H] at hwritten
  refine ⟨_, Update.eq_ok_of_ofExcept hwritten, ?_, hposDef, rfl, ?_⟩
  · exact Rotation.isUnit_turned hs.unit _
  · -- the information takes back what the residual lost by the move so far
    have hresidual := residual_movedBy hs.moved hlinear
    have hback : Λ *ᵥ (Λ⁻¹ *ᵥ η) = η := by
      rw [mulVec_mulVec, Matrix.mul_nonsing_inv _
        ((Matrix.isUnit_iff_isUnit_det _).1 hs.posDef.isUnit), one_mulVec]
    have hsum : Λ'⁻¹ *ᵥ (η + r.evidence base) =
        Λ⁻¹ *ᵥ η + (Λ'⁻¹ * (Hᵀ * R⁻¹)) *ᵥ r.residual s := by
      have hshare : (Hᵀ * R⁻¹) *ᵥ r.residual s = r.evidence base - r.information *ᵥ (Λ⁻¹ *ᵥ η) := by
        rw [hresidual, mulVec_sub, mulVec_mulVec]
        rfl
      have htotal : η + r.evidence base =
          Λ' *ᵥ (Λ⁻¹ *ᵥ η) + (Hᵀ * R⁻¹) *ᵥ r.residual s := by
        rw [hshare, hΛ', add_mulVec, hback]
        abel
      rw [htotal, mulVec_add, mulVec_mulVec, Matrix.nonsing_inv_mul _ hunit', one_mulVec,
        mulVec_mulVec]
    rw [hsum]
    have hmoved := hs.moved.retract ((Λ'⁻¹ * (Hᵀ * R⁻¹)) *ᵥ r.residual s)
    exact ⟨hmoved.position, hmoved.velocity, hmoved.angularVelocity⟩

end Correct

/-! ### Predictions over no time -/

/-- **A prediction over no time changes nothing.** -/
theorem predicted_zero {s : PoseState ℝ} (hs : s.Sound) (m : Motion ℝ) :
    predicted s m.toModel 0 = .ok s := by
  obtain ⟨p, hp, hpd⟩ := hs.posDef
  have hone : m.attenuation 0 = 1 := by
    unfold Motion.attenuation
    cases m.damping with
    | none => rfl
    | some d => exact Real.rpow_zero d
  have hstill : ∀ v : Vec3 ℝ, v.scale 0 = Vec3.zero := fun v => by
    ext <;> exact mul_zero _
  have hadd : s.position + Vec3.zero = s.position := by
    ext <;> exact add_zero _
  have hturn : (Rotation.ofVector (Vec3.zero : Vec3 ℝ) * s.orientation).normalized =
      s.orientation := by
    rw [Rotation.ofVector_zero, Quaternion.one_mul, hs.unit.normalized_eq]
  have hcarried : Motion.transition (0 : ℝ) 1 * p * (Motion.transition (0 : ℝ) 1).transpose +
      m.noise 0 = p := by
    apply Mat.toMatrix_injective
    simp [Motion.transition_eq, Motion.noise_eq]
  rw [predicted_of_toGrid hp, if_neg (lt_irrefl 0), if_pos (Exact.isFinite_eq 0), Motion.carried,
    hone, hcarried, Mat.symmetrized_of_isSymm (isSymm_of_posSemidef hpd.posSemidef), ← hp]
  simp only [Motion.advanceMean, Vec3.scale_one, hstill, hadd, hturn]

/-! ### Trackers -/

namespace Tracker

section Takes

variable [Diagonalization] {t : Tracker ℝ} {time : ℝ}

theorem foreseen_self (hs : t.state.Sound) : t.foreseen t.timestamp = .ok t.state := by
  rw [foreseen, sub_self, predicted_zero hs]

theorem process_advancedTo {message : Message ℝ} {s : PoseState ℝ} (hbody : message.body = t.handle)
    (hlt : ¬message.timestamp < t.timestamp) (hs : t.foreseen message.timestamp = .ok s)
    (hsound : s.Sound) :
    ((t.advancedTo message.timestamp s).process (.measurement message)).result =
        (t.process (.measurement message)).result ∧
      ((t.advancedTo message.timestamp s).process (.measurement message)).tracker =
        (t.process (.measurement message)).tracker := by
  have hself : (t.advancedTo message.timestamp s).foreseen message.timestamp = .ok s :=
    foreseen_self (t := t.advancedTo message.timestamp s) hsound
  rw [process_measurement_of_foreseen hbody hlt hs,
    process_measurement_of_foreseen (t := t.advancedTo message.timestamp s) hbody (lt_irrefl _) hself]
  exact ⟨rfl, rfl⟩

/-- A message with a linear reading for this tracker, at a time. -/
structure Takes (t : Tracker ℝ) (time : ℝ) (message : Message ℝ) : Prop where
  body : message.body = t.handle
  timestamp : message.timestamp = time
  linear : message.reading.turns = false
  noise : message.reading.noise.toMatrix.PosDef

variable {base : PoseState ℝ} {Λ : Matrix (Fin PoseState.dim) (Fin PoseState.dim) ℝ}
  {η : Fin PoseState.dim → ℝ}

/-- **One message** at the time of a tracker is applied and adds its share. -/
theorem fused_process (hconfig : t.config.Valid) (hgate : t.config.gate = none)
    (hs : base.Fused Λ η t.state) {message : Message ℝ} (h : t.Takes t.timestamp message) :
    ∃ d s, (t.process (.measurement message)).result = .ok (.applied d) ∧
      (t.process (.measurement message)).tracker =
        { t with state := s, applied := t.applied + 1, consecutiveFailures := 0 } ∧
      base.Fused (Λ + message.reading.information) (η + message.reading.evidence base) s := by
  obtain ⟨w, hw⟩ := hconfig.weights
  obtain ⟨hrejection, -⟩ := Reading.corrected_sound hs.sound h.noise hw
  obtain ⟨s, hcorrected, hfused⟩ := Reading.corrected_fused hs h.noise h.linear hw
  have happlied := correctBy_of_ungated hgate rfl hrejection hcorrected
  have hforeseen : t.foreseen message.timestamp = .ok t.state := by
    rw [h.timestamp, foreseen_self hs.sound]
  have hstay : t.advancedTo message.timestamp t.state = t := by rw [h.timestamp]; rfl
  rw [process_measurement_of_foreseen h.body h.timestamp.not_lt hforeseen, hstay,
    happlied]
  exact ⟨_, s, rfl, rfl, hfused⟩

/-- **A list of messages** at the time of a tracker is applied, and what is known in the end is a
sum over the list. -/
theorem fused_processAll (hconfig : t.config.Valid) (hgate : t.config.gate = none)
    (hs : base.Fused Λ η t.state) {messages : List (Message ℝ)}
    (h : ∀ message ∈ messages, t.Takes t.timestamp message) :
    (∀ result ∈ (t.processAll (messages.map .measurement)).1, ∃ d, result = .ok (.applied d)) ∧
      ∃ s, (t.processAll (messages.map .measurement)).2 = { t with
          state := s
          applied := t.applied + messages.length
          consecutiveFailures := if messages.isEmpty then t.consecutiveFailures else 0 } ∧
        base.Fused (Λ + (messages.map (·.reading.information)).sum)
          (η + (messages.map (·.reading.evidence base)).sum) s := by
  induction messages generalizing t Λ η with
  | nil =>
    refine ⟨List.forall_mem_nil _, t.state, rfl, ?_⟩
    simpa using hs
  | cons message rest ih =>
    obtain ⟨hfirst, hrest⟩ := List.forall_mem_cons.1 h
    obtain ⟨d, s, hresult, htracker, hfused⟩ := fused_process hconfig hgate hs hfirst
    set t' := (t.process (.measurement message)).tracker with ht'
    -- the induction is over what is known: the first message adds its share, and the rest start from there
    obtain ⟨happlied, s', hlast, hfused'⟩ := ih (t := t') (by rw [htracker]; exact hconfig)
      (by rw [htracker]; exact hgate) (by rw [htracker]; exact hfused) (by
        intro other hmem
        rw [htracker]
        exact ⟨(hrest other hmem).body, (hrest other hmem).timestamp, (hrest other hmem).linear,
          (hrest other hmem).noise⟩)
    refine ⟨List.forall_mem_cons.2 ⟨⟨d, hresult⟩, happlied⟩, s', ?_, ?_⟩
    · change (t'.processAll (rest.map .measurement)).2 = _
      rw [hlast, htracker]
      simp only [ite_self, List.isEmpty_cons, Bool.false_eq_true, if_false, List.length_cons,
        Nat.add_assoc, Nat.add_comm 1]
    · simpa only [List.map_cons, List.sum_cons, ← add_assoc] using hfused'

theorem processAll_advancedTo {message : Message ℝ} {s : PoseState ℝ}
    (hbody : message.body = t.handle) (hlt : ¬message.timestamp < t.timestamp)
    (hs : t.foreseen message.timestamp = .ok s) (hsound : s.Sound) (rest : List (Input ℝ)) :
    (t.advancedTo message.timestamp s).processAll (.measurement message :: rest) =
      t.processAll (.measurement message :: rest) := by
  obtain ⟨hresult, htracker⟩ := process_advancedTo hbody hlt hs hsound
  simp only [processAll, hresult, htracker]

/-- What a list of linear readings at a time comes to: all are applied, and the tracker in the end is
`t` at that time with the sums of `fused_processAll`. -/
theorem processAll_takes (hconfig : t.config.Valid) (hgate : t.config.gate = none)
    (htime : t.timestamp ≤ time) {s : PoseState ℝ} (hs : t.foreseen time = .ok s)
    (hfused : s.Fused Λ η s) {messages : List (Message ℝ)} (hne : messages ≠ [])
    (h : ∀ message ∈ messages, t.Takes time message) :
    (∀ result ∈ (t.processAll (messages.map .measurement)).1, ∃ d, result = .ok (.applied d)) ∧
      ∃ s', (t.processAll (messages.map .measurement)).2 = { t with
          state := s'
          timestamp := time
          applied := t.applied + messages.length
          consecutiveFailures := 0 } ∧
        s.Fused (Λ + (messages.map (·.reading.information)).sum)
          (η + (messages.map (·.reading.evidence s)).sum) s' := by
  cases messages with
  | nil => exact absurd rfl hne
  | cons message rest =>
    have hfirst := h message List.mem_cons_self
    have hahead : (t.advancedTo time s).processAll ((message :: rest).map .measurement) =
        t.processAll ((message :: rest).map .measurement) := by
      obtain ⟨hbody, rfl, -, -⟩ := hfirst
      exact processAll_advancedTo hbody htime.not_gt hs hfused.sound _
    obtain ⟨happlied, s', hlast, hsum⟩ := fused_processAll (t := t.advancedTo time s) hconfig hgate
      hfused fun other hmem => by
        obtain ⟨hbody, htimestamp, hlinear, hnoise⟩ := h other hmem
        exact ⟨hbody, htimestamp, hlinear, hnoise⟩
    rw [hahead] at happlied hlast
    exact ⟨happlied, s', hlast, hsum⟩

/-- **The order of readings at one time cannot be seen.**  A tracker without a gate, whose settings
pass their check and whose state is sound, is given readings of position and angular velocity for its
body, all of one time that is not before its own, with positive definite noise.  In whatever order
they come, each is applied, and the tracker in the end is the same but for its orientation. -/
theorem order_unobservable {t : Tracker ℝ} {time : ℝ} (hconfig : t.config.validate = .ok ())
    (hgate : t.config.gate = none) (hsound : t.state.Sound) (htime : t.timestamp ≤ time)
    {messages messages' : List (Message ℝ)} (hperm : messages.Perm messages')
    (h : ∀ message ∈ messages, t.Takes time message) :
    let run := t.processAll (messages.map .measurement)
    let run' := t.processAll (messages'.map .measurement)
    (∀ result ∈ run.1 ++ run'.1, ∃ d, result = .ok (.applied d)) ∧
      run.2.applied = t.applied + messages.length ∧
      run'.2 = { run.2 with
        state := { run.2.state with orientation := run'.2.state.orientation } } := by
  intro run run'
  by_cases hne : messages = []
  · subst hne
    cases hperm.nil_eq
    exact ⟨List.forall_mem_nil _, rfl, rfl⟩
  have hvalid := TrackerConfig.validate_spec hconfig
  obtain ⟨s, hs, hsound'⟩ := predicted_sound hsound hvalid.motion (sub_nonneg.2 htime)
  obtain ⟨Λ, hfused⟩ := hsound'.fused
  have hne' : messages' ≠ [] := fun hnil => hne (hperm.trans (.of_eq hnil)).eq_nil
  obtain ⟨happlied, u, hu, husum⟩ := processAll_takes hvalid hgate htime hs hfused hne h
  obtain ⟨happlied', u', hu', husum'⟩ := processAll_takes hvalid hgate htime hs hfused hne'
    fun message hmem => h message (hperm.mem_iff.2 hmem)
  -- both orders give the same sums
  rw [← (hperm.map _).sum_eq, ← (hperm.map _).sum_eq] at husum'
  have hstate := husum.eq husum'
  refine ⟨fun result hmem => ?_, ?_, ?_⟩
  · exact (List.mem_append.1 hmem).elim (happlied result) (happlied' result)
  · rw [show run.2 = _ from hu]
  · rw [show run.2 = _ from hu, show run'.2 = _ from hu', ← hperm.length_eq, ← hstate]

end Takes

/-- A turning body whose position and rate are measured at one time. -/
theorem order_unobservable_turning :
    let position : Message ℝ := ⟨⟨1⟩, ⟨7⟩, 2, .position ⟨1, 2, 3⟩ (Mat.scalar 3 1)⟩
    let rate : Message ℝ := ⟨⟨1⟩, ⟨8⟩, 2, .angularVelocity ⟨0, 0, 2⟩ (Mat.scalar 3 1)⟩
    let run := turning.processAll ([position, rate].map .measurement)
    let run' := turning.processAll ([rate, position].map .measurement)
    run.2.applied = 2 ∧ run'.2 = { run.2 with
      state := { run.2.state with orientation := run'.2.state.orientation } } := by
  intro position rate run run'
  have hsound : PoseState.turning.Sound := ⟨Quaternion.isUnit_identity, _, rfl,
    Mat.posDef_scalar (by norm_num [PoseState.initialVariance])⟩
  have htakes : ∀ message ∈ [position, rate], turning.Takes 2 message :=
    List.forall_mem_cons.2 ⟨⟨rfl, rfl, rfl, Mat.posDef_scalar one_pos⟩,
      List.forall_mem_singleton.2 ⟨rfl, rfl, rfl, Mat.posDef_scalar one_pos⟩⟩
  have htime : turning.timestamp ≤ 2 := by norm_num [turning]
  exact (order_unobservable TrackerConfig.validate_standard rfl hsound htime
    (.swap rate position []) htakes).2

end Tracker

end PoseFilter
