import PoseFilter.Random.Layers
import PoseFilter.Random.Stream
import PoseFilter.Scalar.Floating

/-!
# Chance and noise

What a simulation draws from a random source: events of a given probability and standard normal
numbers.  A `NoiseSource` is anything that yields them; the simulation is written for every such
source.  The source of the program is a `RandomStream`, which decides events by comparing a 64-bit
number with the probability and draws normal numbers by rejection from the layers of the density.
-/

namespace PoseFilter

/-- A state `γ` from which random events and normal numbers can be drawn. -/
class NoiseSource (γ : Type) (α : outParam Type) where
  /-- An event of the given probability, if it is one, and the source after the draw. -/
  chance : α → γ → Option (Bool × γ)
  /-- A standard normal number and the source after the draw. -/
  gaussian : γ → α × γ

namespace RandomStream

/-- An event of probability `p`.  Certainty needs no draw, and a number outside `[0, 1]` is no
probability. -/
def chance (p : Float) (s : RandomStream) : Option (Bool × RandomStream) :=
  if p == 1 then some (true, s)
  else if 0 ≤ p ∧ p < 1 then
    let (v, s) := s.next
    some (v < (p * 18446744073709551616.0).toUInt64, s)
  else none

/-- A number drawn from `(0, 1)`. -/
def openUnit (s : RandomStream) : Float × RandomStream :=
  let (v, s) := s.next
  ((1.0 + (v >>> 12).toFloat * (2.0 : Float).pow (-52.0)) - (1.0 - (2.0 : Float).pow (-53.0)), s)

/-- A number drawn from `[0, 1)`. -/
def halfOpenUnit (s : RandomStream) : Float × RandomStream :=
  let (v, s) := s.next
  ((v >>> 11).toFloat * (2.0 : Float).pow (-53.0), s)

/-- A number of the tail of the density, on the side of `u`, in at most `fuel` trials. -/
def tail (u : Float) : Nat → RandomStream → Float × RandomStream
  | 0, s => (if u < 0 then -Normal.tailStart else Normal.tailStart, s)
  | fuel + 1, s =>
    let (o₁, s) := s.openUnit
    let (o₂, s) := s.openUnit
    let x := o₁.log / Normal.tailStart
    let y := o₂.log
    if -2.0 * y < x * x then tail u fuel s
    else (if u < 0 then x - Normal.tailStart else Normal.tailStart - x, s)

/-- A standard normal number in at most `fuel` trials: a layer and a place in it are drawn, and the
place is kept if it lies under the density. -/
def normal : Nat → RandomStream → Float × RandomStream
  | 0, s => (0, s)
  | fuel + 1, s =>
    let (b, s) := s.next
    let i := (b &&& 255).toNat
    let u := (2.0 + (b >>> 12).toFloat * (2.0 : Float).pow (-51.0)) - 3.0
    let x := u * Normal.edges.getD i 0
    if x.abs < Normal.edges.getD (i + 1) 0 then (x, s)
    else if i = 0 then tail u 1000 s
    else
      let (v, s) := s.halfOpenUnit
      let top := Normal.heights.getD (i + 1) 0
      let base := Normal.heights.getD i 0
      if top + (base - top) * v < Normal.density x then (x, s) else normal fuel s

instance : NoiseSource RandomStream Float where
  chance := chance
  gaussian := normal 1000

end RandomStream

end PoseFilter
