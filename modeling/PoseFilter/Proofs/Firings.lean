import PoseFilter.Proofs.Schedules
import PoseFilter.Simulation.Run

/-!
# The firings of all sensors

The firings that are due are collected sensor by sensor and then sorted by time, those at one time by
the place of the sensor.  Sorted lists of firings that hold the same firings are equal, so sorting the
firings of each step and putting the lists together is sorting all firings at once: up to how far the
schedules have been drained (`Firing.rewound`), the steps on the way to a time hand out what a single
step to that time would (`Firing.along_eq`).

* `Firing.due_sorted`, `Firing.due_perm` : what is due is sorted, and complete.
* `Firing.due_append_due` : two steps.
* `Firing.along` : the firings of a sequence of steps.
-/

namespace PoseFilter

/-- A sorting order need only be total and transitive on the members of the list. -/
theorem pairwise_mergeSort_of_mem {β : Type} {le : β → β → Bool} {P : β → Prop}
    (htrans : ∀ a b c, P a → P b → P c → le a b = true → le b c = true → le a c = true)
    (htotal : ∀ a b, P a → P b → le a b = true ∨ le b a = true) {l : List β} (hl : ∀ a ∈ l, P a) :
    (l.mergeSort le).Pairwise fun a b => le a b = true := by
  have hsub : ((l.attachWith P hl).mergeSort fun a b => le a.1 b.1).map Subtype.val =
      l.mergeSort le := by
    rw [List.map_mergeSort (s := le) fun _ _ _ _ => rfl, List.attachWith_map_subtype_val]
  rw [← hsub, List.pairwise_map]
  have htotal' : ∀ a b : Subtype P, (le a.1 b.1 || le b.1 a.1) = true := by
    intro a b
    rw [Bool.or_eq_true]
    exact htotal a.1 b.1 a.2 b.2
  exact List.pairwise_mergeSort (fun a b c => htrans a.1 b.1 c.1 a.2 b.2 c.2) htotal' _

section

variable {α : Type}

/-- A sensor before its first firing. -/
def Sensor.rewound (s : Sensor α) : Sensor α := { s with schedule := s.schedule.after 0 }

/-- A firing of a sensor, however far its schedule has been drained. -/
def Firing.rewound (f : Firing α) : Firing α := { f with sensor := f.sensor.rewound }

/-- When and where a sensor fires. -/
def Firing.place (f : Firing α) : α × Nat := (f.time, f.index)

theorem Firing.map_place_rewound (firings : List (Firing α)) :
    (firings.map rewound).map place = firings.map place := by
  rw [List.map_map]
  rfl

variable [Scalar α]

/-- The sensor with all firings up to a time handed out. -/
def Sensor.drained (now : α) (s : Sensor α) : Sensor α :=
  { s with schedule := (s.schedule.drain now).2 }

/-- The schedule ticks past a time, and no later firing has been handed out. -/
structure Sensor.Punctual (now : α) (s : Sensor α) : Prop where
  ticks : s.schedule.Ticks now
  fired : ∃ n, s.schedule.Reaches now n ∧ s.schedule.fired ≤ n

theorem Run.mem_drained {now : α} {sensors : List (Sensor α)} {s' : Sensor α} :
    s' ∈ Run.drained now sensors ↔ ∃ s ∈ sensors, s.drained now = s' := List.mem_map

theorem Sensor.schedule_drained {now : α} {s : Sensor α} (h : s.Punctual now) :
    ∃ n, s.schedule.Reaches now n ∧ s.schedule.fired ≤ n ∧
      s.drained now = { s with schedule := s.schedule.after n } := by
  obtain ⟨n, hn, hfired⟩ := h.fired
  exact ⟨n, hn, hfired, by rw [drained, Schedule.drain_of_reaches hn hfired]⟩

theorem Sensor.rewound_drained {now : α} {s : Sensor α} (h : s.Punctual now) :
    (s.drained now).rewound = s.rewound := by
  obtain ⟨n, -, -, hdrained⟩ := schedule_drained h
  rw [hdrained]
  rfl

end

namespace Sensor.Punctual

variable {α : Type} [Scalar α] [Chronology α] {now now' : α} {s : Sensor α}

theorem later (h : s.Punctual now) (hticks : s.schedule.Ticks now') (hle : now ≤ now') :
    s.Punctual now' := by
  obtain ⟨n, hn, hfired⟩ := h.fired
  obtain ⟨n', hn'⟩ := Schedule.exists_reaches hticks
  exact ⟨hticks, n', hn', hfired.trans (hn.mono hn' hle)⟩

theorem drained (h : s.Punctual now) (hticks : s.schedule.Ticks now') (hle : now ≤ now') :
    (s.drained now).Punctual now' := by
  obtain ⟨n, hn, -, hdrained⟩ := schedule_drained h
  obtain ⟨n', hn'⟩ := Schedule.exists_reaches hticks
  rw [hdrained]
  exact ⟨⟨hticks.pos, hticks.mono, hticks.passes⟩, n', hn', hn.mono hn' hle⟩

theorem drained_drained (h : s.Punctual now) (hticks : s.schedule.Ticks now') (hle : now ≤ now') :
    (s.drained now).drained now' = s.drained now' := by
  obtain ⟨n, hn, -⟩ := h.fired
  obtain ⟨n', hn'⟩ := Schedule.exists_reaches hticks
  have hschedule := congrArg Prod.snd (Schedule.drain_drain hn hn' (hn.mono hn' hle))
  exact congrArg (fun schedule => { s with schedule }) hschedule

theorem due_append_due (h : s.Punctual now) (hticks : s.schedule.Ticks now') (hle : now ≤ now') :
    s.schedule.due now ++ (s.drained now).schedule.due now' = s.schedule.due now' := by
  obtain ⟨n, hn, -⟩ := h.fired
  obtain ⟨n', hn'⟩ := Schedule.exists_reaches hticks
  exact congrArg Prod.fst (Schedule.drain_drain hn hn' (hn.mono hn' hle))

end Sensor.Punctual

namespace Firing

section Collect

variable {α : Type} [Scalar α] {now : α} {sensors : List (Sensor α)}

theorem collect_eq (now : α) (index : Nat) (sensors : List (Sensor α)) :
    collect now index sensors =
      (sensors.zipIdx index).flatMap fun p => (p.1.schedule.due now).map (⟨·, p.2, p.1⟩) := by
  induction sensors generalizing index with
  | nil => rfl
  | cons s rest ih => rw [collect, ih, List.zipIdx_cons, List.flatMap_cons]

theorem due_perm (now : α) (sensors : List (Sensor α)) :
    (due now sensors).Perm
      (sensors.zipIdx.flatMap fun p => (p.1.schedule.due now).map (⟨·, p.2, p.1⟩)) := by
  rw [← collect_eq]
  exact List.mergeSort_perm _ _

theorem place_due_perm (now : α) (sensors : List (Sensor α)) :
    ((due now sensors).map place).Perm
      (sensors.zipIdx.flatMap fun p => (p.1.schedule.due now).map fun time => (time, p.2)) := by
  refine ((due_perm now sensors).map place).trans (.of_eq ?_)
  rw [List.map_flatMap]
  simp only [List.map_map]
  rfl

theorem mem_due {f : Firing α} :
    f ∈ due now sensors ↔ sensors[f.index]? = some f.sensor ∧ f.time ∈ f.sensor.schedule.due now := by
  rw [(due_perm now sensors).mem_iff, List.mem_flatMap]
  constructor
  · rintro ⟨⟨s, i⟩, hmem, hf⟩
    obtain ⟨time, htime, rfl⟩ := List.mem_map.1 hf
    exact ⟨List.mem_zipIdx_iff_getElem?.1 hmem, htime⟩
  · rintro ⟨hsensor, htime⟩
    exact ⟨(f.sensor, f.index), List.mem_zipIdx_iff_getElem?.2 hsensor,
      List.mem_map.2 ⟨f.time, htime, rfl⟩⟩

theorem sensor_mem {f : Firing α} (h : f ∈ due now sensors) : f.sensor ∈ sensors :=
  List.mem_of_getElem? (mem_due.1 h).1

theorem sensor_of_mem {f : Firing α} (h : f ∈ due now sensors) :
    (sensors.map Sensor.rewound)[f.index]? = some f.rewound.sensor := by
  rw [List.getElem?_map, (mem_due.1 h).1]
  rfl

theorem time_spec (hsensors : ∀ s ∈ sensors, s.Punctual now) {f : Firing α}
    (h : f ∈ due now sensors) :
    ∃ k, f.sensor.schedule.fired < k ∧ f.sensor.schedule.firing k = f.time ∧ f.time ≤ now := by
  obtain ⟨n, hn, hfired⟩ := (hsensors f.sensor (sensor_mem h)).fired
  obtain ⟨k, hlt, hle, hk⟩ := (Schedule.mem_due hn hfired).1 (mem_due.1 h).2
  exact ⟨k, hlt, hk, hk ▸ (hn k (by omega)).2 hle⟩

end Collect

/-! ### The order of firings -/

section Order

variable {α : Type} [Scalar α] [Chronology α] {a b c : Firing α}

theorem before_iff (ha : a.time ≤ a.time) (hb : b.time ≤ b.time) :
    before a b = true ↔ ¬b.time ≤ a.time ∨ a.time ≤ b.time ∧ a.index ≤ b.index := by
  simp only [before, Bool.or_eq_true, Bool.and_eq_true, Bool.not_eq_true', decide_eq_true_eq,
    decide_eq_false_iff_not, Chronology.lt_iff_not_le ha hb, Chronology.lt_iff_not_le hb ha, not_not]

theorem before_trans (ha : a.time ≤ a.time) (hb : b.time ≤ b.time) (hc : c.time ≤ c.time)
    (hab : before a b = true) (hbc : before b c = true) : before a c = true := by
  rw [before_iff ha hb] at hab
  rw [before_iff hb hc] at hbc
  rw [before_iff ha hc]
  rcases hab with hab | ⟨hab, hindex⟩
  · left
    intro hca
    rcases hbc with hbc | ⟨hbc, -⟩
    · have hle := (Chronology.le_total ha hb).resolve_right hab
      exact hbc (Chronology.le_trans hca hle)
    · exact hab (Chronology.le_trans hbc hca)
  · rcases hbc with hbc | ⟨hbc, hindex'⟩
    · exact .inl fun hca => hbc (Chronology.le_trans hca hab)
    · exact .inr ⟨Chronology.le_trans hab hbc, hindex.trans hindex'⟩

theorem before_total (ha : a.time ≤ a.time) (hb : b.time ≤ b.time) :
    before a b = true ∨ before b a = true := by
  rw [before_iff ha hb, before_iff hb ha]
  by_cases hba : b.time ≤ a.time
  · by_cases hab : a.time ≤ b.time
    · exact (Nat.le_total a.index b.index).imp (fun h => .inr ⟨hab, h⟩) fun h => .inr ⟨hba, h⟩
    · exact .inr (.inl hab)
  · exact .inl (.inl hba)

theorem eq_of_before (hpos : 0 < a.time) (ha : a.time ≤ a.time) (hb : b.time ≤ b.time)
    (hab : before a b = true) (hba : before b a = true) : a.time = b.time ∧ a.index = b.index := by
  rw [before_iff ha hb] at hab
  rw [before_iff hb ha] at hba
  rcases hab with hab | ⟨hab, hindex⟩
  · rcases hba with hba | ⟨hba, -⟩
    · exact absurd ((Chronology.le_total ha hb).resolve_right hab) hba
    · exact absurd hba hab
  · rcases hba with hba | ⟨hba, hindex'⟩
    · exact absurd hab hba
    · exact ⟨Chronology.eq_of_le_of_le hpos hab hba, hindex.antisymm hindex'⟩

end Order

/-! ### Steps put together -/

section Steps

variable {α : Type} [Scalar α] [Chronology α] {now now' : α} {sensors : List (Sensor α)}

theorem time_pos (hsensors : ∀ s ∈ sensors, s.Punctual now) {f : Firing α}
    (h : f ∈ due now sensors) : 0 < f.time ∧ f.time ≤ f.time := by
  obtain ⟨k, hlt, hk, -⟩ := time_spec hsensors h
  have hticks := (hsensors f.sensor (sensor_mem h)).ticks
  rw [← hk]
  exact ⟨hticks.firing_pos (by omega), hticks.mono (by omega) le_rfl⟩

/-- **What is due is sorted.** -/
theorem due_sorted (hsensors : ∀ s ∈ sensors, s.Punctual now) :
    (due now sensors).Pairwise fun a b => before a b = true := by
  refine pairwise_mergeSort_of_mem (P := fun f => f.time ≤ f.time)
    (fun _ _ _ => before_trans) (fun _ _ => before_total) fun f hf => ?_
  have hmem : f ∈ due now sensors := (List.mergeSort_perm _ _).mem_iff.2 hf
  exact (time_pos hsensors hmem).2

theorem place_due_sorted (hsensors : ∀ s ∈ sensors, s.Punctual now) :
    ((due now sensors).map place).Pairwise fun a b => a.1 < b.1 ∨ a.1 = b.1 ∧ a.2 ≤ b.2 := by
  rw [List.pairwise_map]
  refine (due_sorted hsensors).imp_of_mem fun {a b} ha hb hab => ?_
  obtain ⟨hpos, hself⟩ := time_pos hsensors ha
  have hself' := (time_pos hsensors hb).2
  rw [before_iff hself hself'] at hab
  by_cases hba : b.time ≤ a.time
  · obtain ⟨hle, hindex⟩ := hab.resolve_left (not_not.2 hba)
    exact .inr ⟨Chronology.eq_of_le_of_le hpos hle hba, hindex⟩
  · exact .inl ((Chronology.lt_iff_not_le hself hself').2 hba)

theorem eq_of_perm {l : List (Firing α)} (hsensors : ∀ s ∈ sensors, s.Punctual now)
    (hperm : (l.map rewound).Perm ((due now sensors).map rewound))
    (hsorted : l.Pairwise fun a b => before a b = true) :
    l.map rewound = (due now sensors).map rewound := by
  have hantisymm : ∀ a b, a ∈ l.map rewound → b ∈ (due now sensors).map rewound →
      before a b = true → before b a = true → a = b := by
    -- firings before each other are at one time and place, and the place determines the sensor
    intro a b hmem hmem' hab hba
    obtain ⟨g, hg, rfl⟩ := List.mem_map.1 hmem'
    obtain ⟨f, hf, rfl⟩ := List.mem_map.1 (hperm.mem_iff.1 hmem)
    obtain ⟨hpos, hself⟩ := time_pos hsensors hf
    obtain ⟨htime, hindex⟩ := eq_of_before (a := f) (b := g) hpos hself
      (time_pos hsensors hg).2 hab hba
    have hsensor := (sensor_of_mem hf).symm.trans ((congrArg _ hindex).trans (sensor_of_mem hg))
    cases f
    cases g
    cases htime
    cases hindex
    exact congrArg (Firing.mk _ _) (Option.some.inj hsensor)
  exact hperm.eq_of_pairwise hantisymm (List.pairwise_map.2 hsorted)
    (List.pairwise_map.2 (due_sorted hsensors))

theorem due_append_due_perm (hsensors : ∀ s ∈ sensors, s.Punctual now)
    (hticks : ∀ s ∈ sensors, s.schedule.Ticks now') (hle : now ≤ now') :
    ((due now sensors ++ due now' (Run.drained now sensors)).map rewound).Perm
      ((due now' sensors).map rewound) := by
  have hsecond : (due now' (Run.drained now sensors)).Perm (sensors.zipIdx.flatMap fun p =>
      ((p.1.drained now).schedule.due now').map (⟨·, p.2, p.1.drained now⟩)) := by
    refine (due_perm now' _).trans (.of_eq ?_)
    rw [show Run.drained now sensors = sensors.map (Sensor.drained now) from rfl, List.zipIdx_map,
      List.flatMap_map]
    rfl
  have hjoined := ((due_perm now sensors).append hsecond).trans (List.flatMap_append_perm _ _ _)
  refine (hjoined.map rewound).trans (.trans (.of_eq ?_) ((due_perm now' sensors).map rewound).symm)
  rw [List.map_flatMap, List.map_flatMap]
  refine List.flatMap_congr fun p hp => ?_
  have hmem : p.1 ∈ sensors := List.mem_of_getElem? (List.mem_zipIdx_iff_getElem?.1 hp)
  have hpunctual := hsensors p.1 hmem
  rw [← hpunctual.due_append_due (hticks p.1 hmem) hle]
  simp only [List.map_append, List.map_map, Function.comp_def, rewound,
    Sensor.rewound_drained hpunctual]

theorem punctual_drained (hsensors : ∀ s ∈ sensors, s.Punctual now)
    (hticks : ∀ s ∈ sensors, s.schedule.Ticks now') (hle : now ≤ now') :
    ∀ s ∈ Run.drained now sensors, s.Punctual now' := by
  intro s' hs'
  obtain ⟨s, hs, rfl⟩ := Run.mem_drained.1 hs'
  exact (hsensors s hs).drained (hticks s hs) hle

theorem not_le_of_mem_drained (hsensors : ∀ s ∈ sensors, s.Punctual now)
    (hticks : ∀ s ∈ sensors, s.schedule.Ticks now') (hle : now ≤ now') {f : Firing α}
    (h : f ∈ due now' (Run.drained now sensors)) : ¬f.time ≤ now := by
  obtain ⟨s, hs, hf⟩ := Run.mem_drained.1 (sensor_mem h)
  obtain ⟨n, hn, -, hdrained⟩ := Sensor.schedule_drained (hsensors s hs)
  obtain ⟨k, hlt, hk, -⟩ := time_spec (punctual_drained hsensors hticks hle) h
  rw [← hf, hdrained] at hlt hk
  have hafter : n < k := hlt
  rw [← hk]
  exact fun hdue => absurd ((hn k (by omega)).1 hdue) (by omega)

/-- **Two steps hand out what the second alone would, in the same order.** -/
theorem due_append_due (hsensors : ∀ s ∈ sensors, s.Punctual now)
    (hticks : ∀ s ∈ sensors, s.schedule.Ticks now') (hle : now ≤ now') :
    (due now sensors ++ due now' (Run.drained now sensors)).map rewound =
      (due now' sensors).map rewound := by
  have hdrained := punctual_drained hsensors hticks hle
  refine eq_of_perm (fun s hs => (hsensors s hs).later (hticks s hs) hle)
    (due_append_due_perm hsensors hticks hle) (List.pairwise_append.2 ?_)
  refine ⟨due_sorted hsensors, due_sorted hdrained, fun a ha b hb => ?_⟩
  have hlate := not_le_of_mem_drained hsensors hticks hle hb
  obtain ⟨k, -, -, hdue⟩ := time_spec hsensors ha
  rw [before_iff (time_pos hsensors ha).2 (time_pos hdrained hb).2]
  exact .inl fun hba => hlate (Chronology.le_trans hba hdue)

omit [Chronology α] in
/-- The firings that the steps at a list of times hand out. -/
def along : List (Sensor α) → List α → List (Firing α)
  | _, [] => []
  | sensors, now :: rest => due now sensors ++ along (Run.drained now sensors) rest

theorem ticks_of_getLast {s : Schedule α} {rest : List α} (h : (now :: rest).IsChain (· ≤ ·))
    (hticks : s.Ticks ((now :: rest).getLast (List.cons_ne_nil _ _))) : s.Ticks now := by
  induction rest generalizing now with
  | nil => exact hticks
  | cons now' rest ih =>
    obtain ⟨hle, hrest⟩ := List.isChain_cons_cons.1 h
    exact (ih hrest (by rwa [List.getLast_cons_cons] at hticks)).of_le hle

/-- **Steps hand out what a single step to the last time would**, in the same order. -/
theorem along_eq {rest : List α} (hsensors : ∀ s ∈ sensors, s.Punctual now)
    (h : (now :: rest).IsChain (· ≤ ·))
    (hticks : ∀ s ∈ sensors, s.schedule.Ticks ((now :: rest).getLast (List.cons_ne_nil _ _))) :
    (along sensors (now :: rest)).map rewound =
      (due ((now :: rest).getLast (List.cons_ne_nil _ _)) sensors).map rewound := by
  induction rest generalizing now with
  | nil => rw [along, along, List.append_nil, List.getLast_singleton]
  | cons now' rest ih =>
    obtain ⟨hle, hrest⟩ := List.isChain_cons_cons.1 h
    simp only [List.getLast_cons_cons] at hticks ⊢
    have hticks' : ∀ s ∈ sensors, s.schedule.Ticks now' := fun s hs =>
      ticks_of_getLast hrest (hticks s hs)
    have hdrained : Run.drained now' (Run.drained now sensors) = Run.drained now' sensors := by
      rw [Run.drained, Run.drained, List.map_map]
      exact List.map_congr_left fun s hs => (hsensors s hs).drained_drained (hticks' s hs) hle
    have hlast := ih (fun s hs => (hsensors s hs).later (hticks' s hs) hle) hrest hticks
    rw [← hlast, along, along, along, hdrained, ← List.append_assoc, List.map_append,
      due_append_due hsensors hticks' hle, ← List.map_append]

end Steps

end Firing

end PoseFilter
