/-!
# Computations that can fail

How a computation in `Except` that is put together from others comes to succeed or to fail: a step and
what follows it, a check, an error that is passed on as another one, and a function along a vector.  The
tracker, the settings, the scenarios and the runs are all put together in these ways.
-/

namespace PoseFilter

section Results

variable {ε β δ : Type} {x : Except ε β}

/-! ### Success -/

theorem bind_eq_ok_iff {f : β → Except ε δ} {d : δ} :
    (x >>= f) = .ok d ↔ ∃ b, x = .ok b ∧ f b = .ok d := by
  cases x with
  | error e => exact ⟨fun h => (nomatch h), fun ⟨_, h, _⟩ => (nomatch h)⟩
  | ok b => exact ⟨fun h => ⟨b, rfl, h⟩, fun ⟨_, hb, h⟩ => by cases hb; exact h⟩

/-- A check gives nothing on, so it only has to pass. -/
theorem bind_unit_eq_ok_iff {check : Except ε Unit} {f : Unit → Except ε δ} {d : δ} :
    (check >>= f) = .ok d ↔ check = .ok () ∧ f () = .ok d :=
  bind_eq_ok_iff.trans ⟨fun ⟨_, h⟩ => h, fun h => ⟨(), h⟩⟩

theorem mapError_eq_ok_iff {ε' : Type} {f : ε → ε'} {b : β} : x.mapError f = .ok b ↔ x = .ok b := by
  cases x with
  | error e => exact ⟨fun h => (nomatch h), fun h => (nomatch h)⟩
  | ok b' => exact ⟨fun h => by cases h; rfl, fun h => by cases h; rfl⟩

theorem exists_ok_of_isOk (h : x.isOk = true) : ∃ b, x = .ok b := by
  cases x with
  | ok b => exact ⟨b, rfl⟩
  | error e => cases h

theorem exists_ok_of_any {p : β → Bool} (h : x.toOption.any p = true) :
    ∃ b, x = .ok b ∧ p b = true := by
  cases x with
  | ok b => exact ⟨b, rfl, h⟩
  | error e => cases h

/-! ### Failure -/

theorem bind_eq_error_iff {f : β → Except ε δ} {e : ε} :
    (x >>= f) = .error e ↔ x = .error e ∨ ∃ b, x = .ok b ∧ f b = .error e := by
  cases x with
  | error e' =>
    constructor
    · intro h
      cases h
      exact .inl rfl
    · rintro (h | ⟨_, h, -⟩) <;> cases h
      rfl
  | ok b =>
    constructor
    · exact fun h => .inr ⟨b, rfl, h⟩
    · rintro (h | ⟨_, h, hf⟩)
      · cases h
      · cases h
        exact hf

theorem exists_error_of_mapM {n : Nat} {f : β → Except ε δ} {xs : Vector β n} {e : ε}
    (h : xs.mapM f = .error e) : ∃ a, f a = .error e := by
  have harray : xs.toArray.mapM f = .error e := by
    rw [← Vector.toArray_mapM, h]
    rfl
  have hlist : xs.toList.mapM f = .error e := by
    rw [← Vector.toList_toArray, ← Array.toList_mapM, harray]
    rfl
  generalize xs.toList = l at hlist
  induction l with
  | nil => cases hlist
  | cons a rest ih =>
    rw [List.mapM_cons] at hlist
    rcases bind_eq_error_iff.1 hlist with ha | ⟨b, -, hlist⟩
    · exact ⟨a, ha⟩
    · rcases bind_eq_error_iff.1 hlist with hrest | ⟨bs, -, hpure⟩
      · exact ih hrest
      · cases hpure

end Results

end PoseFilter
