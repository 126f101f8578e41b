import PoseFilter.Scalar

/-!
# Schedules

A schedule fires at `period`, `2 · period`, `3 · period`, ….  Each time is a product and not a
running sum, so that no rounding error builds up.  `Schedule.drain` hands out the firings up to a
time and remembers how many there have been.
-/

namespace PoseFilter

/-- A regular schedule after some firings. -/
structure Schedule (α : Type) where
  /-- The time between two firings. -/
  period : α
  /-- How many firings have been handed out. -/
  fired : Nat

namespace Schedule

variable {α : Type} [Scalar α]

/-- A schedule with a number of firings per second. -/
def ofRate (rate : α) : Schedule α := ⟨1 / rate, 0⟩

instance : Nonempty (Schedule α) := ⟨ofRate 1⟩

/-- The time of the `k`-th firing. -/
def firing (s : Schedule α) (k : Nat) : α := (k : α) * s.period

/-- The time of the next firing. -/
def next (s : Schedule α) : α := s.firing (s.fired + 1)

/-- One look at the next firing, after those already collected (the latest of these first): it is
collected if it is due, else it is time to hand them out, oldest first. -/
def look (now : α) : List α × Schedule α → Option ((List α × Schedule α) ⊕ (List α × Schedule α))
  | (collected, s) =>
    if s.next ≤ now then some (.inl (s.next :: collected, { s with fired := s.fired + 1 }))
    else some (.inr (collected.reverse, s))

/-- The firings up to and including a time after those already collected, and the schedule after them.
There is no result if the firings never pass the time. -/
def drainOnto (s : Schedule α) (now : α) (collected : List α) : Option (List α × Schedule α) :=
  repeatM (look now) (collected, s)

/-- The firings not yet handed out, up to and including a time, oldest first, and the schedule after
them.  Nothing is handed out if the firings never pass the time. -/
def drain (s : Schedule α) (now : α) : List α × Schedule α :=
  (s.drainOnto now []).getD ([], s)

/-- The firings that are due. -/
def due (s : Schedule α) (now : α) : List α := (s.drain now).1

end Schedule

end PoseFilter
