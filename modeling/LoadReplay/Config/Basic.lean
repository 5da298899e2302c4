import LoadReplay.Setup.Definition
import LoadReplay.Span.Reader

/-!
# Configurations

A run as a configuration file describes it.  What the fields mean together is worked out by
`ScenarioConfig.toScenario` and `ThresholdConfig.toRule`; a few settings can be replaced by
environment variables before.
-/

namespace LoadReplay

/-- A scenario of a configuration. -/
structure ScenarioConfig where
  name : String
  executor : String
  vus : Option Nat
  iterations : Option Nat
  duration : Option Span
  startVus : Option Nat
  stages : List Stage
  ramp : Option String
  tags : TagSet
  startTime : Option Span
  groups : Option (List String)
  minSleep : Option Span
  maxSleep : Option Span
  startJitter : Option Span
  iterationPause : Option Span
  /-- One status, or two with a hyphen between them. -/
  expectedStatuses : Option String
  controlInterval : Option Span

/-- A threshold of a configuration. -/
structure ThresholdConfig where
  filter : String
  condition : String
  abortOnFail : Bool
  delayAbortEval : Option Span

/-- A run of a configuration. -/
structure Config where
  name : String
  target : Option String
  /-- The file of the catalog. -/
  catalog : String
  seed : Option Nat
  checkpointInterval : Option Span
  summaryPath : Option String
  scenarios : List ScenarioConfig
  thresholds : List ThresholdConfig

/-- The kinds of executors. -/
inductive ExecutorKind where
  | fixedIterations
  | constantConcurrency
  | rampingConcurrency
  deriving Repr, DecidableEq

/-- The names of the kinds of executors. -/
def ExecutorKind.names : List (String × ExecutorKind) :=
  [("fixed-iterations", .fixedIterations), ("shared-iterations", .fixedIterations),
    ("constant-concurrency", .constantConcurrency), ("constant-vus", .constantConcurrency),
    ("ramping-concurrency", .rampingConcurrency), ("ramping-vus", .rampingConcurrency)]

/-- Reads the name of an executor. -/
def ExecutorKind.read (name : String) : Except SetupError ExecutorKind :=
  let name := Text.trimmed name
  match names.lookup name with
  | some kind => .ok kind
  | none => .error (.unknownExecutor name)

/-- Reads the name of a ramp shape; a ramp without one is linear. -/
def RampShape.read : Option String → Except SetupError RampShape
  | none => .ok .linear
  | some name =>
    let name := Text.trimmed name
    if name = "linear" then .ok .linear
    else if name = "step" then .ok .step
    else .error (.unknownRampShape name)

/-- Reads a status or a range of statuses that is not empty. -/
def readStatuses (text : String) : Except SetupError (Nat × Nat) :=
  let status (s : List Char) : Option Nat := Number.readStatus (Text.trim s)
  let range : Option (Nat × Nat) :=
    match Text.splitOnce '-' text.toList with
    | some (low, high) => do return (← status low, ← status high)
    | none => (status text.toList).map fun s => (s, s)
  match range with
  | some (low, high) =>
    if high < low then .error (.invalidStatus text) else .ok (low, high)
  | none => .error (.invalidStatus text)

namespace ScenarioConfig

/-- A field that the executor of the scenario needs. -/
def needed {α : Type} (c : ScenarioConfig) (field : String) : Option α → Except SetupError α
  | some a => .ok a
  | none => .error (.missingField c.name field)

/-- The executor of the scenario. -/
def toExecutor (c : ScenarioConfig) : Except SetupError Executor := do
  match ← ExecutorKind.read c.executor with
  | .fixedIterations =>
    return .fixedIterations (← c.needed "iterations" c.iterations) (c.vus.getD 1)
  | .constantConcurrency =>
    return .constantConcurrency (c.vus.getD 1) (← c.needed "duration" c.duration)
  | .rampingConcurrency =>
    return .rampingConcurrency (c.startVus.getD 0) c.stages (← RampShape.read c.ramp)

/-- The scenario that is described. -/
def toScenario (c : ScenarioConfig) : Except SetupError Scenario := do
  let base := Scenario.new c.name (← c.toExecutor)
  let statuses ←
    match c.expectedStatuses with
    | none => .ok base.statuses
    | some text => readStatuses text
  return { base with
    tags := base.tags.merge c.tags
    startTime := c.startTime.getD .zero
    groups := c.groups
    minSleep := c.minSleep.getD .zero
    maxSleep := (c.maxSleep.or c.minSleep).getD .zero
    startJitter := c.startJitter.getD .zero
    iterationPause := c.iterationPause.getD .zero
    statuses
    controlInterval := c.controlInterval.getD base.controlInterval }

end ScenarioConfig

/-- The rule that is described. -/
def ThresholdConfig.toRule (c : ThresholdConfig) : Except SetupError Rule := do
  let rule ← (Rule.read c.filter c.condition).mapError
    (.invalidThreshold (Rule.join c.filter c.condition))
  return if c.abortOnFail then rule.abortOnFail (c.delayAbortEval.getD .zero) else rule

/-! ## Environment variables -/

/-- Replaces the target. -/
def targetVariable : String := "TARGET_HOST"

/-- Replaces the number of virtual users, except of ramps. -/
def vusVariable : String := "VUS_NUMBER"

/-- Replaces the number of iterations. -/
def iterationsVariable : String := "ITERATIONS_NUMBER"

/-- The count that a variable holds, if it is set. -/
def readVariable (lookup : String → Option String) (name : String) :
    Except SetupError (Option Nat) :=
  match lookup name with
  | none => .ok none
  | some value =>
    match Number.readCount64 (Text.trim value.toList) with
    | some n => .ok (some n)
    | none => .error (.invalidVariable name value)

/-- A scenario with the counts of the variables that are set. -/
def ScenarioConfig.withCounts (c : ScenarioConfig) (vus iterations : Option Nat) :
    Except SetupError ScenarioConfig := do
  match ← ExecutorKind.read c.executor with
  | .fixedIterations =>
    return { c with vus := vus.or c.vus, iterations := iterations.or c.iterations }
  | .constantConcurrency => return { c with vus := vus.or c.vus }
  | .rampingConcurrency => return c

/-- Some scenarios with the counts of the variables that are set, up to the first one that has no
known executor. -/
def withCounts (vus iterations : Option Nat) :
    List ScenarioConfig → List ScenarioConfig × Except SetupError Unit
  | [] => ([], .ok ())
  | c :: rest =>
    match c.withCounts vus iterations with
    | .error e => (c :: rest, .error e)
    | .ok c =>
      let (rest, result) := withCounts vus iterations rest
      (c :: rest, result)

/-- Replaces settings by the variables that are set, the target first.  An error does not undo what
was replaced before it. -/
def Config.override (c : Config) (lookup : String → Option String) :
    Config × Except SetupError Unit :=
  let c := { c with target := (lookup targetVariable).or c.target }
  match readVariable lookup vusVariable with
  | .error e => (c, .error e)
  | .ok vus =>
    match readVariable lookup iterationsVariable with
    | .error e => (c, .error e)
    | .ok iterations =>
      let (scenarios, result) := withCounts vus iterations c.scenarios
      ({ c with scenarios }, result)

end LoadReplay
