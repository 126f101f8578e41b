import PoseFilter.CommandLine

/-!
# The program

Reads the scenario document that the arguments name, runs the program on it and prints what it has
to say.
-/

open PoseFilter

/-- The text at a path, if there is one. -/
def readText? (path : String) : IO (Option String) := do
  try return some (← IO.FS.readFile path)
  catch _ => return none

/-- The program. -/
def main (args : List String) : IO UInt32 := do
  let result ←
    match Options.parse args with
    | .error e => pure e.execute
    | .ok o => do pure (o.execute (← readText? o.scenario))
  for line in result.output do
    IO.println line
  return result.code
