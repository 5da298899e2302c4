import LoadReplay.Scenario.Basic
import LoadReplay.Summary.Basic
import LoadReplay.Table.Figures

/-!
# Reports of runs

Everything that a run produced: what each scenario did, the figures of its samples, the verdict of
its rules, and why it stopped early if it did.
-/

namespace LoadReplay

/-- What a scenario did. -/
structure ScenarioReport where
  name : String
  executor : String
  /-- Iterations completed by all of its virtual users. -/
  iterations : Nat
  vusSpawned : Nat
  peakVus : Nat
  /-- Whether it was cut short by an abort. -/
  interrupted : Bool
  elapsed : Span

/-- The report of a scenario that was aborted before its start. -/
def ScenarioReport.notStarted (s : Scenario) : ScenarioReport :=
  { name := s.name
    executor := s.executor.text
    iterations := 0
    vusSpawned := 0
    peakVus := 0
    interrupted := true
    elapsed := .zero }

/-- Why a run stopped early. -/
inductive AbortCause where
  | operator
  /-- A rule that aborts the run failed at a checkpoint. -/
  | threshold (verdict : RuleVerdict)

/-- What a run produced. -/
structure RunReport where
  runId : String
  name : String
  /-- When the run started, in seconds since 1970. -/
  startedAt : Int
  target : String
  scenarios : List ScenarioReport
  byTag : List (Tag × Metric.Stats)
  total : Metric.Stats
  /-- The rules judged by all samples. -/
  verdict : Verdict
  aborted : Option AbortCause

/-- How a run ended. -/
inductive Ending where
  | passed
  | failed
  | inconclusive
  | aborted
  deriving Repr, DecidableEq

/-- The word for an ending. -/
def Ending.text : Ending → String
  | .passed => "passed"
  | .failed => "failed"
  | .inconclusive => "inconclusive"
  | .aborted => "aborted"

/-- The exit code for an ending. -/
def Ending.exitCode : Ending → Nat
  | .passed => 0
  | .failed => 99
  | .inconclusive => 98
  | .aborted => 105

/-- The rules that a run failed. -/
structure ThresholdsFailed where
  run : String
  rules : List String
  deriving Repr, DecidableEq

/-- The text of a failure. -/
def ThresholdsFailed.message (f : ThresholdsFailed) : String :=
  "Run [" ++ f.run ++ "] failed thresholds: " ++ Text.glue ", " f.rules

/-- The version that summaries name. -/
def version : String := "0.1.0"

/-- What a summary keeps of some figures. -/
def FigureSummary.of (s : Metric.Stats) : FigureSummary :=
  { count := s.count
    failures := s.failures
    avgMs := s.avgMs
    p50Ms := s.p50Ms
    p90Ms := s.p90Ms
    p95Ms := s.p95Ms
    p99Ms := s.p99Ms
    maxMs := s.maxMs }

/-- What a summary keeps of a scenario. -/
def ScenarioSummary.of (s : ScenarioReport) : ScenarioSummary :=
  { name := s.name
    executor := s.executor
    iterations := s.iterations
    peakVus := s.peakVus
    interrupted := s.interrupted }

/-- What a summary keeps of a rule. -/
def ThresholdSummary.of (v : RuleVerdict) : ThresholdSummary :=
  { rule := v.rule.text, observed := v.observed, status := v.status.text }

namespace RunReport

/-- The report of a run whose samples are recorded. -/
def of (runId name : String) (startedAt : Int) (target : String) (scenarios : List ScenarioReport)
    (recorder : Metric.Recorder) (rules : List Rule) (aborted : Option AbortCause) : RunReport :=
  { runId, name, startedAt, target, scenarios, aborted
    byTag := recorder.byTag
    total := recorder.total
    verdict := .of rules recorder }

/-- The iterations of all scenarios, as a 64-bit count. -/
def iterations (r : RunReport) : Nat :=
  r.scenarios.foldr (fun s n => s.iterations + n) 0 % Nat.pow 2 64

/-- The report of the first scenario with a name. -/
def scenario? (r : RunReport) (name : String) : Option ScenarioReport :=
  r.scenarios.find? fun s => s.name == name

/-- How the run ended. -/
def ending (r : RunReport) : Ending :=
  match r.aborted, r.verdict.overall with
  | some .operator, _ => .aborted
  | some (.threshold _), _ => .failed
  | none, .failed => .failed
  | none, .inconclusive => .inconclusive
  | none, .passed => .passed

/-- The exit code of the run. -/
def exitCode (r : RunReport) : Nat := r.ending.exitCode

/-- The rules that the run failed: those that failed in the end, and the one that aborted it. -/
def failedRules (r : RunReport) : List String :=
  let failed := r.verdict.failed.map fun v => v.rule.text
  match r.aborted with
  | some (.threshold v) =>
    let text := v.rule.text
    if text ∈ failed then failed else failed ++ [text]
  | _ => failed

/-- Whether a rule aborted the run. -/
def abortedByRule (r : RunReport) : Bool :=
  match r.aborted with
  | some (.threshold _) => true
  | _ => false

/-- The run as a failure, if it failed its rules. -/
def check (r : RunReport) : Except ThresholdsFailed Unit :=
  if r.verdict.overall = .failed ∨ r.abortedByRule then .error ⟨r.name, r.failedRules⟩
  else .ok ()

/-- The summary of the run. -/
def summary (r : RunReport) : RunSummary :=
  { runId := r.runId
    runName := r.name
    startedAt := r.startedAt
    target := r.target
    scenarios := r.scenarios.map .of
    tags := .ofList (r.byTag.map fun e => (e.1.text, .of e.2))
    total := .of r.total
    thresholds := r.verdict.rules.map .of
    verdict := r.ending.text
    version }

end RunReport

end LoadReplay
