import LoadReplay.Table.Grid
import LoadReplay.Threshold.Rule

/-!
# The tables of a report

The figures of each tag, with those of the whole run in a last row, and the verdict of each rule.
-/

namespace LoadReplay.Table

/-- A figure with two decimal places, or a dash where there is none. -/
def figure : Option Float → String
  | none => "-"
  | some x => Number.fixedText 2 x

/-- The heads of the table of figures. -/
def figureHeads : List String :=
  ["tag", "count", "failures", "avg_ms", "min_ms", "p50_ms", "p95_ms", "p99_ms", "max_ms"]

/-- One row of the table of figures. -/
def figureRow (label : String) (s : Metric.Stats) : List String :=
  [label, toString s.count, toString s.failures, figure s.avgMs, figure s.minMs, figure s.p50Ms,
    figure s.p95Ms, figure s.p99Ms, figure s.maxMs]

/-- The lines of the table of figures. -/
def figureLines (byTag : List (Tag × Metric.Stats)) (total : Metric.Stats) : List String :=
  lines (figureHeads :: byTag.map (fun e => figureRow e.1.text e.2) ++ [figureRow "*" total])

/-- The word for a status in a table, where a failure stands out. -/
def statusCell : RuleStatus → String
  | .fail => "FAIL"
  | s => s.text

/-- The heads of the table of verdicts. -/
def verdictHeads : List String := ["rule", "observed", "samples", "status"]

/-- One row of the table of verdicts. -/
def verdictRow (v : RuleVerdict) : List String :=
  [v.rule.text, figure v.observed, toString v.samples, statusCell v.status]

/-- The lines of the table of verdicts. -/
def verdictLines (v : Verdict) : List String := lines (verdictHeads :: v.rules.map verdictRow)

end LoadReplay.Table
