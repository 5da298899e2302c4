import LoadReplay.Run.Controller
import LoadReplay.Setup.Definition
import LoadReplay.Summary.Store

/-!
# The end of a run

When all scenarios have ended, the monitor is stopped, the rules are judged once more by all
samples, and the summary is added to a file if one is named.  A run has a report only if none of its
threads was ended by an error of the program, and only if the summary could be added.
-/

namespace LoadReplay

/-- Why a run that was carried out has no report. -/
inductive ExecutionError where
  /-- An error of the program ended the monitor. -/
  | monitor
  /-- An error of the program ended a virtual user. -/
  | user
  /-- An error of the program ended a controller. -/
  | scenario
  /-- The summary could not be added to its file. -/
  | summary (path : String) (fault : Store.FileFault)
  deriving Repr, DecidableEq

/-- What is said about an error, apart from its cause. -/
def ExecutionError.context : ExecutionError → String
  | .monitor => "Error joining threshold monitor thread: Any \x7b .. \x7d"
  | .user => "Error joining thread for virtual user: Any \x7b .. \x7d"
  | .scenario => "Error joining thread for scenario: Any \x7b .. \x7d"
  | .summary path _ => "Failed to write run summary to " ++ path

/-- What became of a scenario, if it has ended. -/
def Controller.outcome? (c : Controller) : Option (Except ExecutionError ScenarioReport) :=
  match c.phase with
  | .ended report => some (.ok report)
  | .failed => some (.error .user)
  | .crashed => some (.error .scenario)
  | _ => none

/-- What is there when all threads of a run have ended. -/
structure Aftermath where
  recorder : Metric.Recorder
  aborted : Bool
  /-- The rule that aborted the run, unless an error of the program ended the monitor. -/
  cause : Except ExecutionError (Option RuleVerdict)
  /-- What became of the scenarios, in order. -/
  outcomes : List (Except ExecutionError ScenarioReport)

namespace Aftermath

/-- Why the run stopped early, if it did.  A rule that aborted it counts more than an operator. -/
def abortCause? (a : Aftermath) : Option RuleVerdict → Option AbortCause
  | some v => some (.threshold v)
  | none => if a.aborted then some .operator else none

/-- The report of the run.  An error of the monitor counts first, then that of the first scenario
that has one. -/
def report (a : Aftermath) (d : Definition) (runId : String) (startedAt : Int) :
    Except ExecutionError RunReport := do
  let cause ← a.cause
  let scenarios ← a.outcomes.mapM id
  return .of runId d.name startedAt d.target.text scenarios a.recorder d.thresholds
    (a.abortCause? cause)

/-- The report of the run, and the files with its summary. -/
def conclude (a : Aftermath) (d : Definition) (runId : String) (startedAt : Int)
    (files : Store.Files) : Except ExecutionError (RunReport × Store.Files) := do
  let report ← a.report d runId startedAt
  match d.summaryPath with
  | none => return (report, files)
  | some path =>
    let files ← (files.appendSummary path report.summary).mapError (.summary path)
    return (report, files)

end Aftermath

end LoadReplay
