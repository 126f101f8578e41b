import PoseFilter.Document.Parse
import PoseFilter.Document.Print
import PoseFilter.Scalar.Floating
import PoseFilter.Scenario.Tree

/-!
# Scenarios as documents

Reading a scenario from a TOML text, and writing one.  The written document holds every setting and
can be read back.
-/

namespace PoseFilter

namespace Scenario

/-- The document of a scenario, in lines.  A seed that needs the 64th bit has no place in it. -/
def document (c : Scenario Float) : Except (SimulationError Float) (List String) :=
  if Value.integerBound ≤ c.run.seed.toNat then .error .unprintable
  else
    match c.toValue with
    | .table es => .ok (Document.print es)
    | _ => .ok []

/-- The scenario of a document laid over the standard one. -/
def load (text : String) : Except (SimulationError Float) (Scenario Float) :=
  match Document.parse? text with
  | none => .error .unreadable
  | some v => extract v

/-- The scenario of a document on its own. -/
def read? (text : String) : Option (Scenario Float) := (Document.parse? text).bind ofValue?

end Scenario

end PoseFilter
