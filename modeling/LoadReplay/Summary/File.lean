import LoadReplay.Document.FromJson
import LoadReplay.Json.Writer
import LoadReplay.Summary.Basic
import LoadReplay.Text.Blank

/-!
# Files of summaries

A summary is written as one line of JSON with its fields in a fixed order.  A file holds one summary
a line; lines without any text do not count.
-/

namespace LoadReplay

open Document Json

/-! ## Writing -/

/-- A field of a record. -/
def field (name : String) (v : Value) : Json.Text × Value := (some name, v)

/-- The JSON value of a scenario. -/
def ScenarioSummary.encode (s : ScenarioSummary) : Value :=
  .record [field "name" (.ofString s.name), field "executor" (.ofString s.executor),
    field "iterations" (.ofNat s.iterations), field "peak_vus" (.ofNat s.peakVus),
    field "interrupted" (.truth s.interrupted)]

/-- The JSON value of some figures. -/
def FigureSummary.encode (s : FigureSummary) : Value :=
  .record [field "count" (.ofNat s.count), field "failures" (.ofNat s.failures),
    field "avg_ms" (.ofFloat? s.avgMs), field "p50_ms" (.ofFloat? s.p50Ms),
    field "p90_ms" (.ofFloat? s.p90Ms), field "p95_ms" (.ofFloat? s.p95Ms),
    field "p99_ms" (.ofFloat? s.p99Ms), field "max_ms" (.ofFloat? s.maxMs)]

/-- The JSON value of a threshold. -/
def ThresholdSummary.encode (s : ThresholdSummary) : Value :=
  .record [field "rule" (.ofString s.rule), field "observed" (.ofFloat? s.observed),
    field "status" (.ofString s.status)]

/-- A whole number. -/
def wholeValue : Int → Value
  | .ofNat n => .ofNat n
  | .negSucc n => .number (.negative (n + 1))

/-- The JSON value of a summary. -/
def RunSummary.encode (s : RunSummary) : Value :=
  .record [field "run_id" (.ofString s.runId), field "run_name" (.ofString s.runName),
    field "started_at" (wholeValue s.startedAt), field "target" (.ofString s.target),
    field "scenarios" (.list (s.scenarios.map ScenarioSummary.encode)),
    field "tags" (.record (s.tags.entries.map fun e => field e.1 e.2.encode)),
    field "total" s.total.encode,
    field "thresholds" (.list (s.thresholds.map ThresholdSummary.encode)),
    field "verdict" (.ofString s.verdict), field "gale_version" (.ofString s.version)]

/-- The line of a summary. -/
def RunSummary.line (s : RunSummary) : String := s.encode.write

/-- The text of a file with one more summary. -/
def appendSummary (file : String) (s : RunSummary) : String := file ++ s.line ++ "\n"

/-! ## Reading -/

/-- Reads a scenario. -/
def ScenarioSummary.decode (t : Tree) : Decoded ScenarioSummary := do
  let f ← t.allFields ["name", "executor", "iterations", "peak_vus", "interrupted"]
  return {
    name := ← f.required "name" Tree.text
    executor := ← f.required "executor" Tree.text
    iterations := ← f.required "iterations" Tree.count
    peakVus := ← f.required "peak_vus" Tree.count
    interrupted := ← f.required "interrupted" Tree.truth }

/-- Reads some figures. -/
def FigureSummary.decode (t : Tree) : Decoded FigureSummary := do
  let f ← t.allFields
    ["count", "failures", "avg_ms", "p50_ms", "p90_ms", "p95_ms", "p99_ms", "max_ms"]
  return {
    count := ← f.required "count" Tree.count
    failures := ← f.required "failures" Tree.count
    avgMs := ← f.optional "avg_ms" Tree.number
    p50Ms := ← f.optional "p50_ms" Tree.number
    p90Ms := ← f.optional "p90_ms" Tree.number
    p95Ms := ← f.optional "p95_ms" Tree.number
    p99Ms := ← f.optional "p99_ms" Tree.number
    maxMs := ← f.optional "max_ms" Tree.number }

/-- Reads a threshold. -/
def ThresholdSummary.decode (t : Tree) : Decoded ThresholdSummary := do
  let f ← t.allFields ["rule", "observed", "status"]
  return {
    rule := ← f.required "rule" Tree.text
    observed := ← f.optional "observed" Tree.number
    status := ← f.required "status" Tree.text }

/-- The fields of a summary. -/
def RunSummary.names : List String :=
  ["run_id", "run_name", "started_at", "target", "scenarios", "tags", "total", "thresholds",
    "verdict", "gale_version"]

/-- Reads a summary. -/
def RunSummary.decode (t : Tree) : Decoded RunSummary := do
  let f ← t.allFields names
  return {
    runId := ← f.required "run_id" Tree.text
    runName := ← f.required "run_name" Tree.text
    startedAt := ← f.required "started_at" Tree.whole
    target := ← f.required "target" Tree.text
    scenarios := ← f.required "scenarios" (Tree.listOf ScenarioSummary.decode)
    tags := ← f.required "tags" (Tree.mapOf FigureSummary.decode)
    total := ← f.required "total" FigureSummary.decode
    thresholds := ← f.required "thresholds" (Tree.listOf ThresholdSummary.decode)
    verdict := ← f.required "verdict" Tree.text
    version := ← f.required "gale_version" Tree.text }

/-- Reads a summary from its JSON text. -/
def RunSummary.readChars (s : List Char) : Decoded RunSummary := do
  RunSummary.decode (← Tree.readJson s)

/-- Reads a summary from its JSON text. -/
def RunSummary.read (s : String) : Decoded RunSummary := readChars s.toList

/-- The lines of a text that are not blank. -/
def textLines (s : List Char) : List (List Char) :=
  (Text.splitAll '\n' s).filter fun line => !(Text.trim line).isEmpty

/-- Reads all summaries of a file. -/
def readSummaries (file : String) : Decoded (List RunSummary) :=
  (textLines file.toList).mapM RunSummary.readChars

end LoadReplay
