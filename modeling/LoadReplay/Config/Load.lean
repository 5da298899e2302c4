import LoadReplay.Config.Document
import LoadReplay.Document.Read
import LoadReplay.Store.Files

/-!
# Loading configurations

A configuration is loaded from a file whose name tells its format.  The catalog and the summary file
that it names lie next to it, unless their paths begin at the root.
-/

namespace LoadReplay

open Document (Decoded Tree Format)
open Store (Files FileFault)

/-- Why a file is not a document. -/
inductive LoadError where
  | unsupported (path : String)
  | unreadable (path : String) (fault : FileFault)
  | malformed (path : String)
  /-- A duration in it leaves the range of spans. -/
  | overflow
  deriving Repr, DecidableEq

/-- Why a configuration is not a draft of a run. -/
inductive DraftError where
  /-- The catalog of a run cannot be loaded. -/
  | catalog (run : String) (cause : LoadError)
  | setup (cause : SetupError)
  deriving DecidableEq

/-- What was done when loading failed. -/
def LoadError.context : LoadError → Option String
  | .unsupported path =>
    some ("Unsupported file extension for " ++ path
      ++ ", expected .yaml, .yml, .toml or .json")
  | .unreadable path _ => some ("Failed to read " ++ path)
  | .malformed path => some ("Failed to parse " ++ path)
  | .overflow => none

/-- What was done when a catalog could not be loaded, the outer context first. -/
def catalogContexts (run : String) (cause : LoadError) : List String :=
  s!"Failed to load workload catalog for run [{run}]" :: cause.context.toList

/-- Loads a document from a file. -/
def loadDocument {α : Type} (decode : Tree → Decoded α) (files : Files) (path : String) :
    Except LoadError α := do
  let some format := Format.ofPath? path
    | .error (.unsupported path)
  let text ← (files.read path).mapError (.unreadable path)
  match (format.read text).bind decode with
  | .ok a => return a
  | .error .malformed => .error (.malformed path)
  | .error .overflow => .error .overflow

/-- Loads a catalog. -/
def Catalog.load (files : Files) (path : String) : Except LoadError Catalog :=
  loadDocument Catalog.decode files path

/-- A configuration that was loaded from a file. -/
structure LoadedConfig where
  config : Config
  /-- The directory of the file. -/
  directory : String

namespace LoadedConfig

/-- Loads a configuration. -/
def load (files : Files) (path : String) : Except LoadError LoadedConfig := do
  let config ← loadDocument Config.decode files path
  return { config, directory := Store.parentPath path }

/-- A path that the configuration names. -/
def resolve (c : LoadedConfig) (path : String) : String := Store.joinPath c.directory path

/-- The draft of the run that is described, with its catalog. -/
def toDraft (files : Files) (c : LoadedConfig) : Except DraftError Draft := do
  let config := c.config
  let catalog ← (Catalog.load files (c.resolve config.catalog)).mapError (.catalog config.name)
  let scenarios ← (config.scenarios.mapM ScenarioConfig.toScenario).mapError .setup
  let thresholds ← (config.thresholds.mapM ThresholdConfig.toRule).mapError .setup
  let base := Draft.new config.name
  return { base with
    target := config.target
    catalog, scenarios, thresholds
    seed := config.seed.map (·.toUInt64)
    checkpointInterval := config.checkpointInterval.getD base.checkpointInterval
    summaryPath := config.summaryPath.map c.resolve }

end LoadedConfig

/-- Replaces settings of a loaded configuration by environment variables. -/
def LoadedConfig.override (c : LoadedConfig) (lookup : String → Option String) :
    Except SetupError LoadedConfig :=
  let (config, result) := c.config.override lookup
  result.map fun _ => { c with config }

end LoadReplay
