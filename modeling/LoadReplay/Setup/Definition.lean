import LoadReplay.Scenario.Basic
import LoadReplay.Workload.Catalog

/-!
# Definitions of runs

A draft collects what is said of a run; a definition is a draft in which everything has been found
to make sense.
-/

namespace LoadReplay

/-- What is said of a run so far. -/
structure Draft where
  name : String
  target : Option String
  catalog : Catalog
  scenarios : List Scenario
  thresholds : List Rule
  /-- How often the rules are looked at during the run. -/
  checkpointInterval : Span
  seed : Option UInt64
  /-- The file that gets the summary of the run. -/
  summaryPath : Option String

/-- A run that makes sense. -/
structure Definition where
  name : String
  target : Url
  catalog : Catalog
  scenarios : List Scenario
  thresholds : List Rule
  checkpointInterval : Span
  seed : Option UInt64
  summaryPath : Option String

namespace Draft

/-- A run of which nothing is said but its name. -/
def new (name : String) : Draft :=
  { name
    target := none
    catalog := .empty
    scenarios := []
    thresholds := []
    checkpointInterval := .millis 5000
    seed := none
    summaryPath := none }

/-- Reads the target of the run. -/
def readTarget [Url.Idna] (d : Draft) : Except SetupError Url :=
  match d.target with
  | none => .error .missingTarget
  | some text =>
    match Url.read text with
    | .error e => .error (.invalidTarget text e)
    | .ok url => if url.canBeBase then .ok url else .error (.unsupportedTarget text)

/-- Whether the names of some scenarios are new and each makes sense; `seen` holds the names before
them. -/
def checkScenarios (seen : List String) : List Scenario → Except SetupError Unit
  | [] => .ok ()
  | s :: rest => do
    if s.name ∈ seen then .error (.duplicateScenario s.name)
    s.validate
    checkScenarios (s.name :: seen) rest

/-- Whether a catalog has all groups that some scenario names. -/
def checkGroups (c : Catalog) (s : Scenario) : Except SetupError Unit :=
  match (s.groups.getD []).find? fun name => c.groups.all fun g => g.label != name with
  | some name => .error (.unknownGroup s.name name)
  | none => .ok ()

/-- The definition of the run, if everything makes sense. -/
def build [Url.Idna] (d : Draft) : Except SetupError Definition := do
  let target ← d.readTarget
  if d.scenarios.isEmpty then .error .noScenarios
  checkScenarios [] d.scenarios
  d.catalog.validate
  d.scenarios.forM (checkGroups d.catalog)
  return { d with target }

end Draft

end LoadReplay
