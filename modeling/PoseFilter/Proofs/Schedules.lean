import PoseFilter.Proofs.Exact
import PoseFilter.Proofs.Rounding
import PoseFilter.Simulation.Schedule

/-!
# What a schedule hands out

A schedule is drained by a loop that looks at one firing after another.  If exactly the first `n`
firings are up to a time (`Schedule.Reaches`), the loop ends there and has handed out those that were
left, each once (`Schedule.drain_of_reaches`), and nothing at a time that it has passed
(`Schedule.drain_eq_max`); so it does not matter how often a schedule is drained on the way
(`Schedule.drain_drain`).

* `Chronology` : what is asked of the numbers that times are; real numbers and doubles have it.
* `Schedule.Ticks` : firings that do not decrease and pass a time.  Then there is such an `n`
  (`Schedule.exists_reaches`).  At a positive rate they do pass it (`Schedule.ticks_of_mono`).
* `Schedule.reaches_floor` : over the real numbers `n` is the rate times the time, rounded down.
-/

namespace PoseFilter

/-- Numbers whose defined members (those with `a ≤ a`) are in a total order, but for the two zeros, and
whose positive members have multiples that are positive and pass every finite one. -/
class Chronology (α : Type) [Scalar α] : Prop where
  zero_le_zero : (0 : α) ≤ 0
  le_trans : ∀ {a b c : α}, a ≤ b → b ≤ c → a ≤ c
  le_total : ∀ {a b : α}, a ≤ a → b ≤ b → a ≤ b ∨ b ≤ a
  lt_iff_not_le : ∀ {a b : α}, a ≤ a → b ≤ b → (a < b ↔ ¬b ≤ a)
  eq_of_le_of_le : ∀ {a b : α}, 0 < a → a ≤ b → b ≤ a → a = b
  one_div_pos : ∀ {a : α}, 0 < a → Scalar.isFinite a = true → 0 < 1 / a
  one_mul_pos : ∀ {a : α}, 0 < a → 0 < ((1 : Nat) : α) * a
  exists_multiple_not_le : ∀ {a b : α}, 0 < a → Scalar.isFinite b = true →
    ∃ k : Nat, 1 ≤ k ∧ ¬(k : α) * a ≤ b

instance : Chronology ℝ where
  zero_le_zero := le_rfl
  le_trans := fun hab hbc => hab.trans hbc
  le_total := fun _ _ => LinearOrder.le_total _ _
  lt_iff_not_le := fun _ _ => not_le.symm
  eq_of_le_of_le := fun _ => le_antisymm
  one_div_pos := fun ha _ => one_div_pos.2 ha
  one_mul_pos := fun ha => by rwa [Nat.cast_one, one_mul]
  exists_multiple_not_le := fun {a b} ha _ => by
    obtain ⟨k, hk⟩ := Archimedean.arch b ha
    refine ⟨k + 1, by omega, ?_⟩
    rw [nsmul_eq_mul] at hk
    push_cast
    linarith

instance : Chronology Float where
  zero_le_zero := by decide
  le_trans := by
    intro a b c hab hbc
    obtain ⟨ha, -, hrank⟩ := Doubles.le_iff_rank.1 hab
    obtain ⟨-, hc, hrank'⟩ := Doubles.le_iff_rank.1 hbc
    exact Doubles.le_iff_rank.2 ⟨ha, hc, hrank.trans hrank'⟩
  le_total := by
    intro a b ha hb
    rw [Doubles.le_self_iff] at ha hb
    rw [Doubles.le_iff_rank, Doubles.le_iff_rank]
    exact (LinearOrder.le_total _ _).imp (fun h => ⟨ha, hb, h⟩) fun h => ⟨hb, ha, h⟩
  lt_iff_not_le := Doubles.lt_iff_not_le
  eq_of_le_of_le := Doubles.eq_of_le_of_le
  one_div_pos := Doubles.one_div_pos
  one_mul_pos := Doubles.one_mul_pos
  exists_multiple_not_le := Doubles.exists_multiple_not_le

namespace Schedule

section Drain

variable {α : Type} [Scalar α] {s : Schedule α} {now now' : α} {n n' : Nat}

/-- Exactly the first `n` firings are up to a time. -/
def Reaches (s : Schedule α) (now : α) (n : Nat) : Prop := ∀ k, 1 ≤ k → (s.firing k ≤ now ↔ k ≤ n)

/-- The schedule after a number of firings. -/
def after (s : Schedule α) (n : Nat) : Schedule α := { s with fired := n }

theorem drainOnto_eq (s : Schedule α) (now : α) (collected : List α) :
    s.drainOnto now collected =
      if s.next ≤ now then (s.after (s.fired + 1)).drainOnto now (s.next :: collected)
      else some (collected.reverse, s) := by
  rw [drainOnto, repeatM_eq_of_monadTail, repeatM.body, look]
  split
  · rfl
  · rfl

/-- **What the loop hands out**: the firings that are left up to the last one that is due. -/
theorem drainOnto_of_reaches (h : s.Reaches now n) (hfired : s.fired ≤ n) (collected : List α) :
    s.drainOnto now collected = some (collected.reverse ++
      (List.range' (s.fired + 1) (n - s.fired)).map s.firing, s.after n) := by
  obtain ⟨left, rfl⟩ := Nat.exists_eq_add_of_le hfired
  rw [Nat.add_sub_cancel_left]
  induction left generalizing s collected with
  | zero =>
    have hlater : ¬s.next ≤ now := fun hle => by
      have := (h (s.fired + 1) (by omega)).1 hle
      omega
    rw [drainOnto_eq, if_neg hlater]
    simp [after]
  | succ left ih =>
    have hdue : s.next ≤ now := (h (s.fired + 1) (by omega)).2 (by omega)
    have hsum : s.fired + (left + 1) = s.fired + 1 + left := by omega
    rw [drainOnto_eq, if_pos hdue]
    rw [hsum] at h ⊢
    rw [ih (s := s.after (s.fired + 1)) (s.next :: collected) h (Nat.le_add_right _ _)]
    simp [List.range'_succ, next, after, firing]

theorem drain_of_reaches (h : s.Reaches now n) (hfired : s.fired ≤ n) :
    s.drain now =
      ((List.range' (s.fired + 1) (n - s.fired)).map s.firing, s.after n) := by
  rw [drain, drainOnto_of_reaches h hfired []]
  rfl

theorem due_of_reaches (h : s.Reaches now n) (hfired : s.fired ≤ n) :
    s.due now = (List.range' (s.fired + 1) (n - s.fired)).map s.firing := by
  rw [due, drain_of_reaches h hfired]

theorem due_of_fresh (h : s.Reaches now n) (hfresh : s.fired = 0) :
    s.due now = (List.range' 1 n).map s.firing := by
  rw [due_of_reaches h (by omega), hfresh, Nat.sub_zero, Nat.zero_add]

/-- The firings from the next one up to the `n`-th. -/
def firings (s : Schedule α) (n : Nat) : List α :=
  (List.range' (s.fired + 1) (n - s.fired)).map s.firing

theorem firings_append (hfired : s.fired ≤ n) (hle : n ≤ n') :
    s.firings n ++ (s.after n).firings n' = s.firings n' := by
  have hlen : n' - s.fired = (n - s.fired) + (n' - n) := by omega
  have hmid : n + 1 = s.fired + 1 + (n - s.fired) := by omega
  change (List.range' (s.fired + 1) (n - s.fired)).map s.firing ++
    (List.range' (n + 1) (n' - n)).map s.firing = _
  rw [firings, hlen, ← List.range'_append_1, List.map_append, ← hmid]

/-- **The loop ends** at every time, also at one that the schedule has passed. -/
theorem drainOnto_eq_max (h : s.Reaches now n) :
    s.drainOnto now [] = some (s.firings (max s.fired n), s.after (max s.fired n)) := by
  rcases Nat.le_total s.fired n with hleft | hpassed
  · rw [max_eq_right hleft, drainOnto_of_reaches h hleft []]
    rfl
  · have hlater : ¬s.next ≤ now := by
      intro hdue
      have := (h (s.fired + 1) (by omega)).1 hdue
      omega
    rw [max_eq_left hpassed, drainOnto_eq, if_neg hlater, firings, Nat.sub_self]
    rfl

theorem drain_eq_max (h : s.Reaches now n) :
    s.drain now = (s.firings (max s.fired n), s.after (max s.fired n)) := by
  rw [drain, drainOnto_eq_max h]
  rfl

/-- **Two drains are one**, if the second is not the earlier one. -/
theorem drain_drain (h : s.Reaches now n) (h' : s.Reaches now' n') (hle : n ≤ n') :
    ((s.drain now).1 ++ ((s.drain now).2.drain now').1, ((s.drain now).2.drain now').2) =
      s.drain now' := by
  have hlater : (s.after (max s.fired n)).Reaches now' n' := h'
  have hfired : (s.after (max s.fired n)).fired = max s.fired n := rfl
  have hsum : max (max s.fired n) n' = max s.fired n' := by
    rw [max_assoc, max_eq_right hle]
  rw [drain_eq_max h, drain_eq_max hlater, hfired, hsum, drain_eq_max h',
    firings_append (le_max_left _ _) (max_le_max_left _ hle)]
  rfl

theorem mem_due (h : s.Reaches now n) (hfired : s.fired ≤ n) {time : α} :
    time ∈ s.due now ↔ ∃ k, s.fired < k ∧ k ≤ n ∧ s.firing k = time := by
  rw [due_of_reaches h hfired, List.mem_map]
  refine exists_congr fun k => ?_
  rw [List.mem_range'_1, ← and_assoc]
  exact and_congr_left fun _ => by omega

end Drain

/-! ### Schedules that tick -/

section Ticks

variable {α : Type} [Scalar α] {s : Schedule α} {now now' : α} {n n' : Nat}

/-- The firings are positive times that do not decrease, and pass a time in the end. -/
structure Ticks (s : Schedule α) (last : α) : Prop where
  pos : 0 < s.firing 1
  mono : ∀ {j k : Nat}, 1 ≤ j → j ≤ k → s.firing j ≤ s.firing k
  passes : ∃ k, 1 ≤ k ∧ ¬s.firing k ≤ last

variable [Chronology α]

theorem Reaches.mono (h : s.Reaches now n) (h' : s.Reaches now' n') (hle : now ≤ now') : n ≤ n' := by
  rcases Nat.eq_zero_or_pos n with rfl | hpos
  · exact Nat.zero_le n'
  · exact (h' n hpos).1 (Chronology.le_trans ((h n hpos).2 le_rfl) hle)

theorem exists_reaches (h : s.Ticks now) : ∃ n, s.Reaches now n := by
  classical
  obtain ⟨hfirst, hlater⟩ := Nat.find_spec h.passes
  refine ⟨Nat.find h.passes - 1, fun k hk => ⟨fun hdue => ?_, fun hle => ?_⟩⟩
  · by_contra hlt
    exact hlater (Chronology.le_trans (h.mono hfirst (by omega)) hdue)
  · by_contra hnot
    have := Nat.find_min' h.passes ⟨hk, hnot⟩
    omega

theorem Ticks.of_le {last : α} (h : s.Ticks last) (hle : now ≤ last) : s.Ticks now := by
  obtain ⟨k, hk, hlater⟩ := h.passes
  exact ⟨h.pos, h.mono, k, hk, fun hdue => hlater (Chronology.le_trans hdue hle)⟩

theorem Ticks.firing_pos {last : α} (h : s.Ticks last) {k : Nat} (hk : 1 ≤ k) : 0 < s.firing k := by
  have hself : ∀ {j : Nat}, 1 ≤ j → s.firing j ≤ s.firing j := fun hj => h.mono hj le_rfl
  rw [Chronology.lt_iff_not_le Chronology.zero_le_zero (hself hk)]
  intro hle
  exact (Chronology.lt_iff_not_le Chronology.zero_le_zero (hself le_rfl)).1 h.pos
    (Chronology.le_trans (h.mono le_rfl hk) hle)

/-- **At a positive, finite rate** firings that do not decrease pass every finite time. -/
theorem ticks_of_mono {rate last : α} (hrate : 0 < rate) (hfinite : Scalar.isFinite rate = true)
    (hlast : Scalar.isFinite last = true)
    (hmono : ∀ {j k : Nat}, 1 ≤ j → j ≤ k → (ofRate rate).firing j ≤ (ofRate rate).firing k) :
    (ofRate rate).Ticks last := by
  have hperiod := Chronology.one_div_pos hrate hfinite
  exact ⟨Chronology.one_mul_pos hperiod, hmono, Chronology.exists_multiple_not_le hperiod hlast⟩

end Ticks

/-! ### Exact schedules -/

section Exact

variable {rate : ℝ}

theorem firing_ofRate (rate : ℝ) (k : Nat) : (ofRate rate).firing k = k / rate := by
  rw [firing, ofRate, mul_one_div]

/-- **The number of firings up to a time** is the rate times the time, rounded down. -/
theorem reaches_floor (hrate : 0 < rate) (now : ℝ) : (ofRate rate).Reaches now ⌊rate * now⌋₊ := by
  intro k hk
  rw [firing_ofRate, div_le_iff₀ hrate, Nat.le_floor_iff' (by omega), mul_comm]

theorem ticks_ofRate (hrate : 0 < rate) (last : ℝ) : (ofRate rate).Ticks last := by
  refine ticks_of_mono hrate (Exact.isFinite_eq _) (Exact.isFinite_eq _) fun {j k} _ hjk => ?_
  rw [firing_ofRate, firing_ofRate]
  gcongr

end Exact

end Schedule

end PoseFilter
