import PoseFilter.Proofs.Drift
import PoseFilter.Proofs.Phases

/-!
# How far a damped body coasts

Without measurements a damped body comes to rest, and it does so within a distance that is known
beforehand.  A step attenuates the velocities and then moves by them, so what a run covers depends on how
its time is cut into steps; `Motion.reach` is the distance per unit of velocity.  It lies between what one
long step covers, `T aᵀ`, and what continuous decay covers, `(1 - aᵀ) / -log a`: cutting a step in two
covers more, but never as much as the integral (`Motion.reach_le`, one step at a time by
`x e⁻ˣ ≤ 1 - e⁻ˣ`).

* `Motion.le_reach`, `Motion.reach_le` : the two bounds, by induction on the steps.
* `Motion.CoastsTo` : what a run without measurements makes of the velocities and of the position.
* `Motion.damped_coasting` : the bounds for the law of motion and for runs of predictions.
-/

namespace PoseFilter

namespace Motion

open FilterState

variable {a dt : ℝ} {steps rest : List ℝ} {s s₁ s' : PoseState ℝ} {m : Motion ℝ}

/-! ### The reach of a run -/

/-- The way that a run of steps covers per unit of velocity, when `a` is left of it after one second. -/
noncomputable def reach (a : ℝ) : List ℝ → ℝ
  | [] => 0
  | dt :: rest => a ^ dt * (dt + reach a rest)

/-- The way of one long step is a lower bound: what is left only shrinks. -/
theorem le_reach (ha : 0 < a) (ha1 : a ≤ 1) (hsteps : ∀ dt ∈ steps, 0 ≤ dt) :
    steps.sum * a ^ steps.sum ≤ reach a steps := by
  induction steps with
  | nil => rw [List.sum_nil, zero_mul, reach]
  | cons dt rest ih =>
    have hdt : 0 ≤ dt := hsteps dt List.mem_cons_self
    have hrest : ∀ dt ∈ rest, 0 ≤ dt := fun x hx => hsteps x (List.mem_cons_of_mem _ hx)
    have hshrinks : a ^ rest.sum ≤ 1 := Real.rpow_le_one ha.le ha1 (List.sum_nonneg hrest)
    rw [List.sum_cons, Real.rpow_add ha, reach]
    calc (dt + rest.sum) * (a ^ dt * a ^ rest.sum)
        = a ^ dt * (dt * a ^ rest.sum + rest.sum * a ^ rest.sum) := by ring
      _ ≤ a ^ dt * (dt * 1 + reach a rest) := by
        gcongr
        exact ih hrest
      _ = a ^ dt * (dt + reach a rest) := by rw [mul_one]

theorem step_le_decay (ha : 0 < a) (dt : ℝ) : a ^ dt * (dt * -Real.log a) ≤ 1 - a ^ dt := by
  have hpos : 0 < a ^ dt := Real.rpow_pos_of_pos ha dt
  have hexp : Real.exp (dt * -Real.log a) = (a ^ dt)⁻¹ := by
    rw [Real.rpow_def_of_pos ha, ← Real.exp_neg]
    congr 1
    ring
  have hline := Real.add_one_le_exp (dt * -Real.log a)
  rw [hexp] at hline
  calc a ^ dt * (dt * -Real.log a) ≤ a ^ dt * ((a ^ dt)⁻¹ - 1) := by
        gcongr
        linarith
    _ = 1 - a ^ dt := by rw [mul_sub, mul_inv_cancel₀ hpos.ne', mul_one]

/-- **A run covers no more than continuous decay does**, however its time is cut into steps. -/
theorem reach_le (ha : 0 < a) (ha1 : a < 1) (steps : List ℝ) :
    reach a steps ≤ (1 - a ^ steps.sum) / -Real.log a := by
  have hlog : 0 < -Real.log a := neg_pos.2 (Real.log_neg ha ha1)
  rw [le_div_iff₀ hlog]
  induction steps with
  | nil => simp [reach]
  | cons dt rest ih =>
    have hpos : 0 < a ^ dt := Real.rpow_pos_of_pos ha dt
    rw [reach, List.sum_cons, Real.rpow_add ha]
    calc a ^ dt * (dt + reach a rest) * -Real.log a
        = a ^ dt * (dt * -Real.log a) + a ^ dt * (reach a rest * -Real.log a) := by ring
      _ ≤ (1 - a ^ dt) + a ^ dt * (1 - a ^ rest.sum) :=
        add_le_add (step_le_decay ha dt) (mul_le_mul_of_nonneg_left ih hpos.le)
      _ = 1 - a ^ dt * a ^ rest.sum := by ring

theorem decay_lt (ha : 0 < a) (ha1 : a < 1) (time : ℝ) :
    (1 - a ^ time) / -Real.log a < 1 / -Real.log a := by
  have hlog : 0 < -Real.log a := neg_pos.2 (Real.log_neg ha ha1)
  exact div_lt_div_of_pos_right (sub_lt_self 1 (Real.rpow_pos_of_pos ha time)) hlog

/-! ### Runs without measurements -/

/-- What a run of steps without measurements makes of the velocities and of the position. -/
structure CoastsTo (a : ℝ) (steps : List ℝ) (s s' : PoseState ℝ) : Prop where
  velocity : s'.velocity = s.velocity.scale (a ^ steps.sum)
  angularVelocity : s'.angularVelocity = s.angularVelocity.scale (a ^ steps.sum)
  position : s'.position = s.position + s.velocity.scale (reach a steps)

namespace CoastsTo

theorem nil (a : ℝ) (s : PoseState ℝ) : CoastsTo a [] s s := by
  constructor
  · rw [List.sum_nil, Real.rpow_zero, Vec3.scale_one]
  · rw [List.sum_nil, Real.rpow_zero, Vec3.scale_one]
  · ext <;> simp [reach, Vec3.scale, Vec3.add_x, Vec3.add_y, Vec3.add_z]

theorem cons (ha : 0 < a) (hstep : CoastsTo a [dt] s s₁) (hrest : CoastsTo a rest s₁ s') :
    CoastsTo a (dt :: rest) s s' := by
  have hpow : a ^ (dt :: rest).sum = a ^ [dt].sum * a ^ rest.sum := by
    rw [List.sum_cons, Real.rpow_add ha, List.sum_singleton]
  have hreach : reach a (dt :: rest) = reach a [dt] + a ^ [dt].sum * reach a rest := by
    simp only [reach, List.sum_singleton]
    ring
  constructor
  · rw [hrest.velocity, hstep.velocity, Vec3.scale_scale, hpow]
  · rw [hrest.angularVelocity, hstep.angularVelocity, Vec3.scale_scale, hpow]
  · rw [hrest.position, hstep.position, hstep.velocity, Vec3.scale_scale, Vec3.add_scale_add_scale,
      hreach]

theorem distance (h : CoastsTo a steps s s') :
    (s'.position - s.position).norm = |reach a steps| * s.velocity.norm := by
  have hdifference : s'.position - s.position = s.velocity.scale (reach a steps) := by
    rw [h.position]
    ext <;> simp only [Vec3.sub_x, Vec3.sub_y, Vec3.sub_z, Vec3.add_x, Vec3.add_y, Vec3.add_z] <;> ring
  rw [hdifference, Vec3.norm_scale, mul_comm]

end CoastsTo

theorem advance_coastsTo (hm : m.damping = some a) (s : PoseState ℝ) (dt : ℝ) :
    CoastsTo a [dt] s (m.advance s dt) := by
  have hshare : m.attenuation dt = a ^ dt := by
    rw [attenuation, hm]
    rfl
  have hreach : reach a [dt] = a ^ dt * dt := by rw [reach, reach, add_zero]
  constructor
  · rw [List.sum_singleton, ← hshare]
    rfl
  · rw [List.sum_singleton, ← hshare]
    rfl
  · rw [hreach, ← Vec3.scale_scale, ← hshare]
    rfl

theorem predicted_coastsTo (hm : m.damping = some a) (h : predicted s m.toModel dt = .ok s₁) :
    CoastsTo a [dt] s s₁ := by
  obtain ⟨-, -, -, p, q, -, -, rfl⟩ := predicted_eq_ok_iff.1 h
  have hmoved := advance_coastsTo hm s dt
  exact ⟨hmoved.velocity, hmoved.angularVelocity, hmoved.position⟩

theorem foldl_advance_coastsTo (hm : m.damping = some a) (ha : 0 < a) (steps : List ℝ)
    (s : PoseState ℝ) : CoastsTo a steps s (steps.foldl m.advance s) := by
  induction steps generalizing s with
  | nil => exact .nil a s
  | cons dt rest ih => exact .cons ha (advance_coastsTo hm s dt) (ih _)

/-- The state after a run of predictions, or why there is none. -/
noncomputable def predictedAll (m : Motion ℝ) (s : PoseState ℝ) (steps : List ℝ) :
    Except (FilterError ℝ) (PoseState ℝ) :=
  steps.foldlM (fun s dt => predicted s m.toModel dt) s

theorem predictedAll_cons : predictedAll m s (dt :: rest) =
    (predicted s m.toModel dt).bind fun s₁ => predictedAll m s₁ rest := rfl

theorem predictedAll_coastsTo (hm : m.damping = some a) (ha : 0 < a)
    (h : predictedAll m s steps = .ok s') : CoastsTo a steps s s' := by
  induction steps generalizing s with
  | nil =>
    cases h
    exact .nil _ _
  | cons dt rest ih =>
    rw [predictedAll_cons] at h
    cases hstep : predicted s m.toModel dt with
    | error e => rw [hstep] at h; cases h
    | ok s₁ =>
      rw [hstep] at h
      exact .cons ha (predicted_coastsTo hm hstep) (ih h)

theorem exists_predictedAll (m : Motion ℝ) (hs : Fits s) (hsteps : ∀ dt ∈ steps, 0 ≤ dt) :
    ∃ s', predictedAll m s steps = .ok s' := by
  induction steps generalizing s with
  | nil => exact ⟨s, rfl⟩
  | cons dt rest ih =>
    obtain ⟨p, hp⟩ := Grid.shape_eq_iff.1 hs
    have hdt : ¬dt < 0 := not_lt.2 (hsteps dt List.mem_cons_self)
    have hstep := predicted_of_toGrid (s := s) hp m dt
    rw [if_neg hdt, if_pos (Exact.isFinite_eq dt)] at hstep
    rw [predictedAll_cons, hstep]
    exact ih (Grid.shape_eq_iff.2 ⟨_, rfl⟩) fun x hx => hsteps x (List.mem_cons_of_mem _ hx)

/-- **A damped body coasts a bounded way.**  Let `a` be left of the velocities after one second, with
`0 < a < 1`, and let a run of steps take the time `T` in all.  Every state keeps `aᵀ` of both of its
velocities, however the time is cut into steps, and moves by `c` times its velocity, where
`T aᵀ ≤ c ≤ (1 - aᵀ) / -log a < 1 / -log a`; so it stays within `|v| / -log a` of where it was, and
strictly within it unless it is not moving at all.  This is so for the law of motion and for every run of
predictions, and a run of predictions goes through from every state with a covariance of the right
shape. -/
theorem damped_coasting (hm : m.damping = some a) (ha : 0 < a) (ha1 : a < 1)
    (hsteps : ∀ dt ∈ steps, 0 ≤ dt) :
    ∃ c, steps.sum * a ^ steps.sum ≤ c ∧ c ≤ (1 - a ^ steps.sum) / -Real.log a ∧
      (1 - a ^ steps.sum) / -Real.log a < 1 / -Real.log a ∧
      ∀ s : PoseState ℝ,
        (∀ s', s' = steps.foldl m.advance s ∨ predictedAll m s steps = .ok s' →
          s'.velocity = s.velocity.scale (a ^ steps.sum) ∧
          s'.angularVelocity = s.angularVelocity.scale (a ^ steps.sum) ∧
          s'.position = s.position + s.velocity.scale c ∧
          (s'.position - s.position).norm ≤ s.velocity.norm / -Real.log a ∧
          (s.velocity ≠ Vec3.zero →
            (s'.position - s.position).norm < s.velocity.norm / -Real.log a)) ∧
        (Fits s → ∃ s', predictedAll m s steps = .ok s') := by
  have hlower := le_reach ha ha1.le hsteps
  have hupper := reach_le ha ha1 steps
  have hlimit := decay_lt ha ha1 steps.sum
  have hreach : 0 ≤ reach a steps :=
    le_trans (mul_nonneg (List.sum_nonneg hsteps) (Real.rpow_nonneg ha.le _)) hlower
  refine ⟨reach a steps, hlower, hupper, hlimit, fun s => ⟨fun s' hs' => ?_, fun hs =>
    exists_predictedAll m hs hsteps⟩⟩
  have hcoasts : CoastsTo a steps s s' := by
    rcases hs' with rfl | hrun
    · exact foldl_advance_coastsTo hm ha steps s
    · exact predictedAll_coastsTo hm ha hrun
  have hspeed : 0 ≤ s.velocity.norm := Real.sqrt_nonneg _
  have hdistance : (s'.position - s.position).norm = reach a steps * s.velocity.norm := by
    rw [hcoasts.distance, abs_of_nonneg hreach]
  have hbound : s.velocity.norm / -Real.log a = 1 / -Real.log a * s.velocity.norm := by ring
  refine ⟨hcoasts.velocity, hcoasts.angularVelocity, hcoasts.position, ?_, fun hmoving => ?_⟩
  · rw [hdistance, hbound]
    exact mul_le_mul_of_nonneg_right (hupper.trans hlimit.le) hspeed
  · have hpos : 0 < s.velocity.norm :=
      lt_of_le_of_ne hspeed fun h => hmoving (Vec3.eq_zero_of_norm_eq_zero h.symm)
    rw [hdistance, hbound]
    exact mul_lt_mul_of_pos_right (lt_of_le_of_lt hupper hlimit) hpos

/-- The standard damping and a body at one metre per second, over steps of one second, of none and of
three seconds. -/
theorem damped_coasting_three_steps :
    let steps : List ℝ := [1, 0, 3]
    let s : PoseState ℝ := { PoseState.initial with velocity := ⟨1, 0, 0⟩ }
    ((damped : Motion ℝ).damping = some 0.3 ∧ (0 : ℝ) < 0.3 ∧ (0.3 : ℝ) < 1 ∧ ∀ dt ∈ steps, 0 ≤ dt) ∧
      ∃ s', predictedAll damped s steps = .ok s' ∧ s'.velocity = s.velocity.scale (0.3 ^ steps.sum) ∧
        (s'.position - s.position).norm < s.velocity.norm / -Real.log 0.3 := by
  intro steps s
  have hpos : (0 : ℝ) < 0.3 := by norm_num
  have hlt : (0.3 : ℝ) < 1 := by norm_num
  have hsteps : ∀ dt ∈ steps, 0 ≤ dt := by simp [steps]
  have hmoving : s.velocity ≠ Vec3.zero := fun h => one_ne_zero (congrArg Vec3.x h)
  obtain ⟨c, -, -, -, hrun⟩ := damped_coasting (m := damped) rfl hpos hlt hsteps
  obtain ⟨hcoasts, hexists⟩ := hrun s
  obtain ⟨s', hs'⟩ := hexists rfl
  obtain ⟨hvelocity, -, -, -, hwithin⟩ := hcoasts s' (.inr hs')
  exact ⟨⟨rfl, hpos, hlt, hsteps⟩, s', hs', hvelocity, hwithin hmoving⟩

end Motion

end PoseFilter
