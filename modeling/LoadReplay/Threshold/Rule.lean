import LoadReplay.Threshold.Condition

/-!
# Threshold rules and verdicts

A rule says that a condition holds of the samples that a filter selects.  A run is judged by all of
its rules together: it fails if a rule fails, and otherwise it is inconclusive if a rule selects no
sample.
-/

namespace LoadReplay

/-- A condition on the samples that a filter selects. -/
structure Rule where
  filter : TagFilter
  condition : Condition
  /-- Whether the run is aborted when the rule fails at a checkpoint, and from when on. -/
  abortFrom : Option Span

namespace Rule

/-- Why a filter text and a condition text are not a rule. -/
inductive ParseError where
  | tag (cause : Tag.ParseError)
  | condition (cause : Condition.ParseError)
  /-- The filter asks for no tag that a sample carries, so it would select the whole run. -/
  | emptyFilter
  deriving Repr, DecidableEq

/-- The text of an error. -/
def ParseError.message : ParseError → String
  | .tag cause => cause.message
  | .condition cause => cause.message
  | .emptyFilter =>
    "Threshold rule must reference at least one recorded tag besides expected_response"

/-- Reads the two parts of a rule, the filter first. -/
def read (filter condition : String) : Except ParseError Rule := do
  let filter ← (TagFilter.read filter).mapError .tag
  let condition ← (Condition.read condition).mapError .condition
  if filter.carried.isEmpty then .error .emptyFilter
  else return { filter, condition, abortFrom := none }

/-- The rule that aborts the run when it fails at a checkpoint at or after a moment. -/
def abortOnFail (r : Rule) (start : Span) : Rule := { r with abortFrom := some start }

/-- The written form of a filter and a condition, from their texts. -/
def join (filter condition : String) : String := "\x7b" ++ filter ++ "\x7d " ++ condition

/-- The written form of a rule. -/
def text (r : Rule) : String := join r.filter.text r.condition.text

end Rule

/-- What a rule says of the samples. -/
inductive RuleStatus where
  | pass
  | fail
  /-- The filter selects no sample. -/
  | inconclusive
  deriving Repr, DecidableEq

/-- The word for a status. -/
def RuleStatus.text : RuleStatus → String
  | .pass => "pass"
  | .fail => "fail"
  | .inconclusive => "inconclusive"

/-- A rule and what became of it. -/
structure RuleVerdict where
  rule : Rule
  observed : Option Float
  samples : Nat
  status : RuleStatus

/-- What a condition says of the figure that was observed, if there is one. -/
def Condition.judge (c : Condition) : Option Float → RuleStatus
  | none => .inconclusive
  | some x => if c.comparator.holds x c.bound then .pass else .fail

/-- Judges a rule by the samples recorded so far, with percentiles at the places of `ranking`. -/
def Rule.evaluateBy (ranking : Nat → Float → Metric.Place Float) (rule : Rule)
    (recorder : Metric.Recorder) : RuleVerdict :=
  let sel := recorder.select rule.filter
  let observed := if sel.isEmpty then none else rule.condition.statistic.computeBy ranking sel
  { rule, observed, samples := sel.count, status := rule.condition.judge observed }

/-- Judges a rule by the samples recorded so far. -/
def Rule.evaluate (rule : Rule) (recorder : Metric.Recorder) : RuleVerdict :=
  rule.evaluateBy Metric.place recorder

/-- What all rules together say of a run. -/
inductive Overall where
  | passed
  | failed
  | inconclusive
  deriving Repr, DecidableEq

/-- The word for a verdict. -/
def Overall.text : Overall → String
  | .passed => "passed"
  | .failed => "failed"
  | .inconclusive => "inconclusive"

/-- The verdicts of all rules, in rule order, and of the run. -/
structure Verdict where
  rules : List RuleVerdict
  overall : Overall

/-- The verdict on a run from the statuses of its rules. -/
def Overall.ofStatuses (statuses : List RuleStatus) : Overall :=
  if .fail ∈ statuses then .failed
  else if .inconclusive ∈ statuses then .inconclusive
  else .passed

namespace Verdict

/-- Judges a run by the samples recorded so far, with percentiles at the places of `ranking`. -/
def ofBy (ranking : Nat → Float → Metric.Place Float) (rules : List Rule)
    (recorder : Metric.Recorder) : Verdict :=
  let verdicts := rules.map fun r => r.evaluateBy ranking recorder
  { rules := verdicts, overall := .ofStatuses (verdicts.map (·.status)) }

/-- Judges a run by the samples recorded so far. -/
def of (rules : List Rule) (recorder : Metric.Recorder) : Verdict :=
  ofBy Metric.place rules recorder

/-- Whether the run passed. -/
def isPass (v : Verdict) : Bool := v.overall == .passed

/-- The verdicts of the rules that failed, in rule order. -/
def failed (v : Verdict) : List RuleVerdict := v.rules.filter fun r => r.status == .fail

end Verdict

end LoadReplay
