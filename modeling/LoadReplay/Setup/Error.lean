import LoadReplay.Span.Text
import LoadReplay.Threshold.Rule
import LoadReplay.Url.Basic

/-!
# What can be wrong with a run

Every mistake in the description of a run.  All of them are found before the first virtual user
starts.
-/

namespace LoadReplay

/-- Why a request of a catalog has no URL. -/
inductive RequestFault where
  | emptyPath
  /-- The path names a host of its own. -/
  | absolute
  | url (cause : Url.ParseError)
  deriving Repr, DecidableEq

/-- The text of a fault. -/
def RequestFault.message : RequestFault → String
  | .emptyPath => "empty path"
  | .absolute => "absolute URLs are not allowed, paths are resolved against the target"
  | .url cause => cause.message

/-- A mistake in the description of a run. -/
inductive SetupError where
  | noScenarios
  | duplicateScenario (scenario : String)
  | zeroConcurrency (scenario : String)
  | noStages (scenario : String)
  | invalidPacing (scenario : String) (least greatest : Span)
  | zeroControlInterval (scenario : String)
  | noExpectedStatuses (scenario : String)
  | missingField (scenario field : String)
  | unknownExecutor (name : String)
  | unknownRampShape (name : String)
  | emptyCatalog
  | emptyGroup (group : String)
  | duplicateGroup (group : String)
  | unknownGroup (scenario group : String)
  | missingTarget
  | invalidTarget (target : String) (cause : Url.ParseError)
  | unsupportedTarget (target : String)
  | invalidRequest (group path : String) (fault : RequestFault)
  | invalidThreshold (rule : String) (cause : Rule.ParseError)
  | invalidVariable (name value : String)
  | invalidStatus (text : String)
  deriving DecidableEq

/-- The text of an error. -/
def SetupError.message : SetupError → String
  | .noScenarios => "No scenarios defined"
  | .duplicateScenario scenario => s!"Scenario [{scenario}] is defined more than once"
  | .zeroConcurrency scenario =>
    s!"Scenario [{scenario}] must run with at least one virtual user"
  | .noStages scenario => s!"Scenario [{scenario}] uses a ramping executor but has no stages"
  | .invalidPacing scenario least greatest =>
    s!"Scenario [{scenario}] has min_sleep " ++ least.text ++ " greater than max_sleep "
      ++ greatest.text
  | .zeroControlInterval scenario => s!"Scenario [{scenario}] has a zero control interval"
  | .noExpectedStatuses scenario => s!"Scenario [{scenario}] has no expected response statuses"
  | .missingField scenario field =>
    s!"Scenario [{scenario}] is missing required field `{field}` for its executor"
  | .unknownExecutor name =>
    s!"Unknown executor [{name}], expected fixed-iterations, constant-concurrency or "
      ++ "ramping-concurrency"
  | .unknownRampShape name => s!"Unknown ramp shape [{name}], expected linear or step"
  | .emptyCatalog => "The workload catalog has no groups"
  | .emptyGroup group => s!"Workload group [{group}] has no requests"
  | .duplicateGroup group => s!"Workload group [{group}] is defined more than once"
  | .unknownGroup scenario group =>
    s!"Scenario [{scenario}] refers to unknown workload group [{group}]"
  | .missingTarget => "No target host configured, set `target` or TARGET_HOST"
  | .invalidTarget target cause => s!"Invalid target [{target}]: " ++ cause.message
  | .unsupportedTarget target => s!"Target [{target}] cannot be used as a base for request paths"
  | .invalidRequest group path fault =>
    s!"Invalid request [{path}] in group [{group}]: " ++ fault.message
  | .invalidThreshold rule cause => s!"Invalid threshold [{rule}]: " ++ cause.message
  | .invalidVariable name value => s!"Invalid value [{value}] for environment variable {name}"
  | .invalidStatus text => s!"Invalid expected status range [{text}]"

end LoadReplay
