import PoseFilter.Journal
import PoseFilter.Mat.Jacobi
import PoseFilter.Scenario.Text

/-!
# The command line

The arguments of the program are read from left to right.  An option that takes a value holds it
attached (`--seed=7`, `-d2.5`, `-d=2.5`) or in the next argument, unless that one looks like an
option itself.  A value in an argument of its own is only read when the next option comes or the
arguments end, so a word that is no option is reported before a bad value that precedes it.

`Options.execute` is the whole program as a function of its options and of the scenario document.
-/

namespace PoseFilter

/-- What the program is asked to do. -/
structure Options where
  /-- The path of the scenario document. -/
  scenario : String
  /-- A seed in place of the scenario's. -/
  seed : Option UInt64
  /-- A duration in place of the scenario's. -/
  duration : Option Float
  verbose : Bool
  /-- Print the scenario instead of running it. -/
  printConfig : Bool

/-- Why the program does not start. -/
inductive UsageError
  /-- An option that there is not, or a word where none is expected. -/
  | unknownArgument
  /-- A value that is not a number of the right kind. -/
  | badValue
  /-- A value that is missing or empty. -/
  | missingValue
  /-- An option that was given before. -/
  | repeated
  /-- A value for an option that takes none. -/
  | unneededValue
  /-- The user asked for help. -/
  | help
  /-- The user asked for the version. -/
  | version

namespace CommandLine

/-- The options that take a value. -/
inductive Valued
  | scenario
  | seed
  | duration
  deriving DecidableEq

/-- The options that take none. -/
inductive Switch
  | verbose
  | printConfig
  | help
  | version
  deriving DecidableEq

/-- An option. -/
inductive Flag
  | valued (v : Valued)
  | switch (s : Switch)

/-- The option with a long name. -/
def ofLong? : String → Option Flag
  | "scenario" => some (.valued .scenario)
  | "seed" => some (.valued .seed)
  | "duration" => some (.valued .duration)
  | "verbose" => some (.switch .verbose)
  | "print-config" => some (.switch .printConfig)
  | "help" => some (.switch .help)
  | "version" => some (.switch .version)
  | _ => none

/-- The option with a short name. -/
def ofShort? : Char → Option Flag
  | 's' => some (.valued .scenario)
  | 'd' => some (.valued .duration)
  | 'v' => some (.switch .verbose)
  | 'h' => some (.switch .help)
  | 'V' => some (.switch .version)
  | _ => none

/-- What has been read of the arguments. -/
structure Progress where
  scenario : Option String
  seed : Option UInt64
  duration : Option Float
  verbose : Bool
  printConfig : Bool
  /-- An option whose value is not read yet, with the value if it has come. -/
  pending : Option (Valued × Option String)

/-- Nothing read. -/
def Progress.start : Progress := ⟨none, none, none, false, false, none⟩

/-- An option given with a value. -/
def assign (p : Progress) (v : Valued) (value : String) : Except UsageError Progress :=
  match v with
  | .scenario =>
    if p.scenario.isSome then .error .repeated
    else if value = "" then .error .missingValue
    else .ok { p with scenario := some value }
  | .seed =>
    if p.seed.isSome then .error .repeated
    else
      match Decimal.parseNat? UInt64.size value with
      | some n => .ok { p with seed := some n.toUInt64 }
      | none => .error .badValue
  | .duration =>
    if p.duration.isSome then .error .repeated
    else
      match Decimal.parse? value with
      | some x => .ok { p with duration := some x }
      | none => .error .badValue

/-- The option whose value is not read yet, settled. -/
def settle (p : Progress) : Except UsageError Progress :=
  match p.pending with
  | none => .ok p
  | some (_, none) => .error .missingValue
  | some (v, some value) => assign { p with pending := none } v value

/-- An option that takes no value. -/
def throwSwitch (p : Progress) (s : Switch) : Except UsageError Progress := do
  let p ← settle p
  match s with
  | .verbose => if p.verbose then throw .repeated else return { p with verbose := true }
  | .printConfig => if p.printConfig then throw .repeated else return { p with printConfig := true }
  | .help => throw .help
  | .version => throw .version

/-- An option that takes a value, attached to it or still to come. -/
def giveValue (p : Progress) (v : Valued) (attached : Option String) :
    Except UsageError Progress := do
  let p ← settle p
  match attached with
  | some value => assign p v value
  | none => return { p with pending := some (v, none) }

/-- An argument with a long name, and the value attached to it. -/
def readLong (p : Progress) (name : String) (attached : Option String) :
    Except UsageError Progress :=
  match ofLong? name with
  | none => .error .unknownArgument
  | some (.valued v) => giveValue p v attached
  | some (.switch s) => if attached.isSome then .error .unneededValue else throwSwitch p s

/-- Short names bundled in one argument; the first that takes a value has the rest for it. -/
def readShort : List Char → Progress → Except UsageError Progress
  | [], p => .ok p
  | c :: rest, p =>
    match ofShort? c with
    | none => .error .unknownArgument
    | some (.switch s) => do readShort rest (← throwSwitch p s)
    | some (.valued v) =>
      match rest with
      | [] => giveValue p v none
      | '=' :: value => giveValue p v (some (String.ofList value))
      | value => giveValue p v (some (String.ofList value))

/-- A long argument split at its first equality sign. -/
def splitLong (cs : List Char) : String × Option String :=
  match cs.span (· != '=') with
  | (name, '=' :: value) => (String.ofList name, some (String.ofList value))
  | (name, _) => (String.ofList name, none)

/-- A word that is no option: the value that an option waits for, or one too many. -/
def readWord (p : Progress) (word : String) : Except UsageError Progress :=
  match p.pending with
  | some (v, none) => .ok { p with pending := some (v, some word) }
  | _ => .error .unknownArgument

/-- The arguments one after another.  After a bare `--` no word is expected. -/
def readAll : List String → Progress → Except UsageError Progress
  | [], p => settle p
  | arg :: rest, p =>
    match arg.toList with
    | ['-', '-'] => if rest.isEmpty then settle p else .error .unknownArgument
    | '-' :: '-' :: cs => do
      let (name, attached) := splitLong cs
      readAll rest (← readLong p name attached)
    | '-' :: c :: cs => do readAll rest (← readShort (c :: cs) p)
    | _ => do readAll rest (← readWord p arg)

/-- The document that is run when none is named. -/
def defaultScenario : String := "assets/scenarios/default.toml"

end CommandLine

namespace Options

open CommandLine

/-- The options that the arguments stand for. -/
def parse (args : List String) : Except UsageError Options := do
  let p ← readAll args Progress.start
  return {
    scenario := p.scenario.getD defaultScenario
    seed := p.seed
    duration := p.duration
    verbose := p.verbose
    printConfig := p.printConfig }

/-- The scenario with seed and duration replaced as the options say. -/
def override (o : Options) (c : Scenario Float) : Scenario Float :=
  { c with
    run :=
      { c.run with
        seed := o.seed.getD c.run.seed
        duration := o.duration.getD c.run.duration } }

/-- The scenario to run, given the text at the path of the options.  It has to be valid before and
after the replacements. -/
def resolve (o : Options) (text : Option String) :
    Except (SimulationError Float) (Scenario Float) := do
  match text with
  | none => throw (.scenarioNotFound o.scenario)
  | some text =>
    let c := o.override (← Scenario.load text)
    c.validate
    return c

end Options

/-! ### The program -/

/-- What a call of the program comes to. -/
structure Execution where
  /-- The exit code. -/
  code : UInt32
  /-- What goes to standard output, each with a line end after it. -/
  output : List String

namespace Execution

/-- The line of an error that ends the program. -/
def errorLine (e : SimulationError Float) : String := logLine .error "vitrack_sim" e.message

/-- The lines after a run: a warning if the estimate went astray, and the largest errors. -/
def closing (s : RunSummary Float) : List String :=
  (if s.finalEstimateTrustworthy then []
   else
    [logLine .error "vitrack_sim"
      ("final estimate of '" ++ s.body ++ "' contains non-finite values")]) ++
  [logLine .info "vitrack_sim"
    ("Max Pos Err: " ++ Layout.fixed 4 s.errors.maxPosition ++ "m | Max Att Err: " ++
      Layout.fixed 3 s.errors.maxAttitudeDeg ++ "°")]

/-- The run of a scenario from the random stream of its seed. -/
def ofScenario (c : Scenario Float) : Execution :=
  match Run.create c (RandomStream.seeded c.run.seed) with
  | .error e => ⟨1, [errorLine e]⟩
  | .ok r =>
    let (result, r) := r.complete
    let told := r.journal.toList.map RunEvent.line
    match result with
    | .error e => ⟨1, told ++ [errorLine e]⟩
    | .ok s => ⟨0, told ++ closing s⟩

/-- The scenario as a document. -/
def ofDocument (c : Scenario Float) : Execution :=
  match c.document with
  | .error e => ⟨1, [errorLine e]⟩
  | .ok lines => ⟨0, lines⟩

/-- The usage of the program. -/
def usage : List String :=
  ["vitrack_sim: a headless scenario driver for the vitrack pose tracker",
   "",
   "Usage: vitrack_sim [OPTIONS]",
   "",
   "Options:",
   "  -s, --scenario <SCENARIO>  The path to the scenario TOML file to run [default: " ++
     CommandLine.defaultScenario ++ "]",
   "      --seed <SEED>          Overrides the scenario's random seed",
   "  -d, --duration <DURATION>  Overrides the scenario's duration, in seconds",
   "  -v, --verbose              Log at debug level (per-measurement outcomes). " ++
     "`RUST_LOG` wins if set",
   "      --print-config         Print the fully resolved scenario as TOML and exit",
   "  -h, --help                 Print help",
   "  -V, --version              Print version"]

end Execution

/-- A call of the program with the given options and the text at the path they name. -/
def Options.execute (o : Options) (text : Option String) : Execution :=
  let loading :=
    if text.isSome then
      [logLine .info "vitrack_sim::simulation::config" ("Loading scenario from: " ++ o.scenario)]
    else []
  let rest : Execution :=
    match o.resolve text with
    | .error e => ⟨1, [Execution.errorLine e]⟩
    | .ok c => if o.printConfig then Execution.ofDocument c else Execution.ofScenario c
  ⟨rest.code, loading ++ rest.output⟩

/-- A call of the program that does not start: help and version go to standard output. -/
def UsageError.execute : UsageError → Execution
  | .help => ⟨0, Execution.usage⟩
  | .version => ⟨0, ["vitrack_sim 0.1.0"]⟩
  | _ => ⟨2, []⟩

end PoseFilter
