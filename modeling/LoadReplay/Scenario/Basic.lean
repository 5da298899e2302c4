import LoadReplay.Scenario.Executor
import LoadReplay.Setup.Error

/-!
# Scenarios

Everything that is said of one scenario of a run, and when it makes sense.
-/

namespace LoadReplay

/-- The tag that names the scenario of a sample. -/
def scenarioKey : String := "scenario"

/-- A scenario of a run. -/
structure Scenario where
  name : String
  executor : Executor
  /-- Carried by every sample of the scenario. -/
  tags : TagSet
  /-- How long after the start of the run it starts. -/
  startTime : Span
  /-- The labels of the groups that it replays; all groups if it names none. -/
  groups : Option (List String)
  /-- The bounds of the pause between two requests of an iteration. -/
  minSleep : Span
  maxSleep : Span
  /-- The bound of the pause before an iteration. -/
  startJitter : Span
  /-- The pause at the end of an iteration. -/
  iterationPause : Span
  /-- The statuses from the first to the second count as success. -/
  statuses : Nat × Nat
  /-- How often deadlines are looked at and the number of virtual users is adjusted. -/
  controlInterval : Span

namespace Scenario

/-- A scenario of which nothing is said but its name and its executor. -/
def new (name : String) (executor : Executor) : Scenario :=
  { name, executor
    tags := SortedMap.empty
    startTime := .zero
    groups := none
    minSleep := .zero
    maxSleep := .zero
    startJitter := .zero
    iterationPause := .zero
    statuses := (200, 399)
    controlInterval := .millis 100 }

/-- The scenario with another ramp shape, if it has a ramp. -/
def withShape (s : Scenario) (shape : RampShape) : Scenario :=
  match s.executor with
  | .rampingConcurrency start stages _ =>
    { s with executor := .rampingConcurrency start stages shape }
  | _ => s

/-- The shape of the ramp, if there is one. -/
def shape? (s : Scenario) : Option RampShape :=
  match s.executor with
  | .rampingConcurrency _ _ shape => some shape
  | _ => none

/-- Whether a status counts as success. -/
def expects (s : Scenario) (status : Nat) : Bool :=
  s.statuses.1 ≤ status && status ≤ s.statuses.2

/-- The tags that every sample of the scenario starts from: its own tags and its name. -/
def sampleTags (s : Scenario) : TagSet := s.tags.insert scenarioKey s.name

/-- Whether the executor has something to run. -/
def checkExecutor (s : Scenario) : Except SetupError Unit :=
  match s.executor with
  | .fixedIterations _ concurrency | .constantConcurrency concurrency _ =>
    if concurrency = 0 then .error (.zeroConcurrency s.name) else .ok ()
  | .rampingConcurrency _ stages _ =>
    if stages.isEmpty then .error (.noStages s.name) else .ok ()

/-- Whether the scenario makes sense. -/
def validate (s : Scenario) : Except SetupError Unit := do
  s.checkExecutor
  if s.maxSleep < s.minSleep then .error (.invalidPacing s.name s.minSleep s.maxSleep)
  if s.controlInterval.isZero then .error (.zeroControlInterval s.name)
  if s.statuses.2 < s.statuses.1 then .error (.noExpectedStatuses s.name)

end Scenario

end LoadReplay
