import PoseFilter.Scenario.Tree
import PoseFilter.Simulation.Run

/-!
# The journal as text

What trackers and runs tell, one line each: the level, the part of the program that speaks, the
message, and the fields of the message.
-/

namespace PoseFilter

/-- How much a line matters. -/
inductive Level
  | info
  | warn
  | error

/-- The word for a level. -/
def Level.word : Level → String
  | info => "INFO"
  | warn => "WARN"
  | error => "ERROR"

/-- A character of a message.  Those that a terminal would act on are spelled out: the bell, the
backspace, the form feed, the escape, the delete, and the second set of control characters. -/
def shown (c : Char) : String :=
  if c.toNat = 0x07 then "\\x07"
  else if c.toNat = 0x08 then "\\x08"
  else if c.toNat = 0x0c then "\\x0c"
  else if c.toNat = 0x1b then "\\x1b"
  else if c.toNat = 0x7f then "\\x7f"
  else if 0x80 ≤ c.toNat ∧ c.toNat ≤ 0x9f then
    "\\u\x7b" ++ String.ofList (Nat.toDigits 16 c.toNat) ++ "\x7d"
  else c.toString

/-- A line of the journal. -/
def logLine (level : Level) (speaker message : String) : String :=
  level.word ++ " " ++ speaker ++ ": " ++ String.join (message.toList.map shown)

/-- A number as a field of a line. -/
def fieldText (x : Float) : String := Layout.general.text x

/-- The settings of a motion as a field of a line. -/
def Motion.fieldText (m : Motion Float) : String :=
  let noises := "position_noise: " ++ PoseFilter.fieldText m.positionNoise ++
    ", orientation_noise: " ++ PoseFilter.fieldText m.orientationNoise
  match m.damping with
  | none => constantWord ++ " \x7b " ++ noises ++ " \x7d"
  | some d =>
    dampedWord ++ " \x7b " ++ noises ++ ", damping: " ++ PoseFilter.fieldText d ++ " \x7d"

/-- The line of what a tracker tells. -/
def TrackerEvent.line : TrackerEvent Float → String
  | created body motion =>
    logLine .info "vitrack_core::estimation::tracker"
      ("created body tracker body=" ++ body.label ++ " process_model=" ++ motion.fieldText)
  | predictionNotFinite dt =>
    logLine .warn "vitrack_core::estimation"
      ("prediction produced non-finite values dt=" ++ fieldText dt)
  | correctedMeanNotFinite =>
    logLine .warn "vitrack_core::estimation::ukf"
      "corrected state is not finite; keeping the prior state"
  | correctedCovarianceNotSemidefinite =>
    logLine .warn "vitrack_core::estimation::ukf"
      "corrected covariance is not positive semi-definite; keeping the prior state"
  | correctionRejected body reason =>
    logLine .warn "vitrack_core::estimation::tracker"
      ("rejected invalid correction body=" ++ body.label ++ " reason=" ++ reason.message)
  | covarianceReset body failures variance =>
    logLine .warn "vitrack_core::estimation::tracker"
      ("resetting covariance after repeated failures body=" ++ body.label ++ " failures=" ++
        toString failures ++ " variance=" ++ fieldText variance)

/-- The line of what a run tells. -/
def RunEvent.line : RunEvent Float → String
  | setUp body sensors seed =>
    logLine .info "vitrack_sim::simulation::runner"
      s!"Setting up body '{body}' with {sensors} sensor(s), seed {seed.toNat}"
  | sensorCreated kind name handle rate =>
    logLine .info "vitrack_sim::simulation::sensors"
      ("  -> Created " ++ kind ++ " '" ++ name ++ "' (" ++ handle.label ++ ") at " ++
        Layout.fixed 1 rate ++ " Hz")
  | tracker event => event.line
  | started steps rate =>
    logLine .info "vitrack_sim::simulation::runner"
      ("Running " ++ toString steps ++ " steps at " ++ Layout.fixed 1 rate ++ " Hz")
  | stateError body time error =>
    logLine .info "vitrack_sim::simulation::runner"
      ("Body '" ++ body ++ "' State Error | t: " ++ Layout.fixed 2 time ++ "s | Pos Err: " ++
        Layout.fixed 3 error.position ++ "m | Att Err: " ++ Layout.fixed 3 error.attitudeDeg ++ "°")
  | completed s =>
    logLine .info "vitrack_sim::simulation::runner"
      (s!"Run complete | {s.measurements} measurements ({s.dropped} dropped) | " ++
        s!"applied {s.applied} | outliers {s.rejectedOutliers} | invalid {s.rejectedInvalid} | " ++
        "RMS Pos Err: " ++ Layout.fixed 4 s.errors.rmsPosition ++ "m | RMS Att Err: " ++
        Layout.fixed 3 s.errors.rmsAttitudeDeg ++ "°")

end PoseFilter
