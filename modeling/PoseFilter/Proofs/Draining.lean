import PoseFilter.Proofs.Schedules

/-!
# Schedules drained again and again

A schedule may be drained at any times, at one time twice, and at a time that it has passed already.
Draining at a time and then at a later one comes to the same as draining at the later one alone
(`Schedule.drain_drain`), and by induction this holds for any number of drains on the way
(`Schedule.drainAll_concat`).  What any run of drains hands out is therefore the beginning of what a
single one would hand out, and no firing is handed out twice or out of order
(`Schedule.pairwise_drainAll`).

* `Schedule.drainAll` : a run of drains, at times in any order.
* `Schedule.drains_by_floor` : over the real numbers, what a drain hands out, where it leaves the schedule,
  and how drains compose.
-/

namespace PoseFilter

namespace Schedule

section Generic

variable {α : Type} [Scalar α] {s : Schedule α} {now now' b : α} {nows : List α} {n n' : Nat}

/-- A schedule drained at one time after another: all that is handed out, and the schedule after it. -/
def drainAll (s : Schedule α) : List α → List α × Schedule α
  | [] => ([], s)
  | now :: rest =>
    ((s.drain now).1 ++ ((s.drain now).2.drainAll rest).1, ((s.drain now).2.drainAll rest).2)

theorem drainAll_singleton (s : Schedule α) (now : α) : s.drainAll [now] = s.drain now := by
  simp only [drainAll, List.append_nil]

theorem drainAll_prefix (s : Schedule α) (nows later : List α) :
    (s.drainAll nows).1 <+: (s.drainAll (nows ++ later)).1 := by
  induction nows generalizing s with
  | nil => exact List.nil_prefix
  | cons now rest ih => exact (List.prefix_append_right_inj _).2 (ih (s.drain now).2)

theorem Ticks.after {last : α} (h : s.Ticks last) (n : Nat) : (s.after n).Ticks last :=
  ⟨h.pos, h.mono, h.passes⟩

variable [Chronology α]

/-- **Draining on the way** leaves no trace in what has been handed out in the end, nor in the
schedule. -/
theorem drainAll_concat (h : s.Ticks b) (hle : ∀ now ∈ nows, now ≤ b) :
    s.drainAll (nows ++ [b]) = s.drain b := by
  induction nows generalizing s with
  | nil => exact drainAll_singleton s b
  | cons now rest ih =>
    obtain ⟨hnow, hrest⟩ := List.forall_mem_cons.1 hle
    obtain ⟨n, hn⟩ := exists_reaches (h.of_le hnow)
    obtain ⟨n', hn'⟩ := exists_reaches h
    have hticks : (s.drain now).2.Ticks b := by
      rw [drain_eq_max hn]
      exact h.after _
    rw [List.cons_append, drainAll, ih hticks hrest]
    exact drain_drain hn hn' (hn.mono hn' hnow)

end Generic

section Exact

variable {rate : ℝ}

theorem pairwise_firings (hrate : 0 < rate) (fired n : Nat) :
    (((ofRate rate).after fired).firings n).Pairwise (· < ·) := by
  refine List.pairwise_map.2 ((List.pairwise_lt_range' (s := fired + 1)).imp ?_)
  intro j k hjk
  change (ofRate rate).firing j < (ofRate rate).firing k
  rw [firing_ofRate, firing_ofRate]
  gcongr

/-- **No firing is handed out twice or out of order**, whatever the times of the drains. -/
theorem pairwise_drainAll (hrate : 0 < rate) (fired : Nat) (nows : List ℝ) :
    (((ofRate rate).after fired).drainAll nows).1.Pairwise (· < ·) := by
  obtain ⟨last, hlast⟩ := nows.toFinset.exists_le
  have hle : ∀ now ∈ nows, now ≤ last := fun now hnow => hlast now (List.mem_toFinset.2 hnow)
  have hticks := (ticks_ofRate hrate last).after fired
  have hbeginning := drainAll_prefix ((ofRate rate).after fired) nows [last]
  rw [drainAll_concat hticks hle] at hbeginning
  refine List.Pairwise.sublist hbeginning.sublist ?_
  have hreaches : ((ofRate rate).after fired).Reaches last ⌊rate * last⌋₊ := reaches_floor hrate last
  rw [drain_eq_max hreaches]
  exact pairwise_firings hrate fired _

theorem lt_next (hrate : 0 < rate) (fired : Nat) (now : ℝ) :
    now < ((ofRate rate).after (max fired ⌊rate * now⌋₊)).next := by
  have hreaches := reaches_floor hrate now (max fired ⌊rate * now⌋₊ + 1) (by omega)
  refine not_le.1 fun hdue => ?_
  have := hreaches.1 hdue
  omega

/-- **What draining a schedule does**, at a positive rate, after any number of firings and at any time.
The loop ends, and hands out the firings after those `fired` up to the `K`-th, for the larger `K` of
`fired` and the time times the rate rounded down; after that `K` have been handed out and the next one is
later than the time.  So what a run of drains hands out is strictly increasing, whatever the times; and
drains up to a time, one or many, followed by one at that time come to the same as that one alone. -/
theorem drains_by_floor (hrate : 0 < rate) (fired : Nat) :
    let s := (ofRate rate).after fired
    (∀ now : ℝ, ∃ K : Nat, (K : ℤ) = max (fired : ℤ) ⌊now * rate⌋ ∧
      s.drainOnto now [] = some (s.drain now) ∧
      s.due now = (List.range' (fired + 1) (K - fired)).map (fun k : Nat => (k : ℝ) * (1 / rate)) ∧
      (s.drain now).2 = (ofRate rate).after K ∧ now < (s.drain now).2.next) ∧
    (∀ nows : List ℝ, (s.drainAll nows).1.Pairwise (· < ·)) ∧
    (∀ a b : ℝ, a ≤ b → s.due a ++ (s.drain a).2.due b = s.due b ∧
      ((s.drain a).2.drain b).2 = (s.drain b).2) ∧
    ∀ (nows : List ℝ) (b : ℝ), (∀ now ∈ nows, now ≤ b) → s.drainAll (nows ++ [b]) = s.drain b := by
  intro s
  have hreaches : ∀ now, s.Reaches now ⌊rate * now⌋₊ := fun now => reaches_floor hrate now
  have htogether : ∀ (nows : List ℝ) (b : ℝ), (∀ now ∈ nows, now ≤ b) →
      s.drainAll (nows ++ [b]) = s.drain b :=
    fun _ b hle => drainAll_concat ((ticks_ofRate hrate b).after fired) hle
  refine ⟨?_, pairwise_drainAll hrate fired, ?_, htogether⟩
  · intro now
    have hdrain := drain_eq_max (hreaches now)
    refine ⟨max fired ⌊rate * now⌋₊, ?_, ?_, ?_, ?_, ?_⟩
    · rw [← Int.floor_toNat, mul_comm now rate]
      omega
    · rw [hdrain, drainOnto_eq_max (hreaches now)]
    · rw [due, hdrain]
      rfl
    · rw [hdrain]
      rfl
    · rw [hdrain]
      exact lt_next hrate fired now
  · intro a b hab
    exact Prod.ext_iff.1 (drain_drain (hreaches a) (hreaches b) (by gcongr))

/-- Thirty firings per second, drained twice at one time, at an earlier one and a little later. -/
theorem drains_by_floor_thirty :
    let s : Schedule ℝ := (ofRate 30).after 0
    (0 : ℝ) < 30 ∧ (s.due 1.01).length = 30 ∧
      (s.drainAll ([1.01, 1.01, 0.5] ++ [1.05])).1.length = 31 := by
  intro s
  have hthirty : (0 : ℝ) < 30 := by norm_num
  obtain ⟨hdrain, -, -, htogether⟩ := drains_by_floor hthirty 0
  have hlength : ∀ {now : ℝ} {n : Nat}, ⌊now * 30⌋ = (n : ℤ) → (s.due now).length = n := by
    intro now n hfloor
    obtain ⟨K, hK, -, hdue, -⟩ := hdrain now
    have hn : K = n := by omega
    rw [hdue, List.length_map, List.length_range', hn, Nat.sub_zero]
  have hearlier : ∀ now ∈ [(1.01 : ℝ), 1.01, 0.5], now ≤ 1.05 := by
    intro now hnow
    simp only [List.mem_cons, List.not_mem_nil, or_false] at hnow
    rcases hnow with rfl | rfl | rfl <;> norm_num
  refine ⟨hthirty, hlength (by norm_num), ?_⟩
  rw [htogether _ _ hearlier]
  exact hlength (by norm_num)

end Exact

end Schedule

end PoseFilter
