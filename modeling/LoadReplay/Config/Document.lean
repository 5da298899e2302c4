import LoadReplay.Config.Basic
import LoadReplay.Document.Tree

/-!
# Configurations and catalogs as documents

The fields of configuration files and catalog files.  The order of the names counts where a list
stands for a record.
-/

namespace LoadReplay

open Document

/-- Reads a duration: a number of seconds, or the text of a duration. -/
def Span.decode (t : Tree) : Decoded Span :=
  match t.plain? with
  | some (.count n) => need (Span.ofParts? n 0)
  | some (.number x) => need (Span.ofSeconds? x)
  | some (.text s) =>
    match Span.read s with
    | .ok a => .ok a
    | .error (.error _) => .error .malformed
    | .error .overflow => .error .overflow
  | _ => .error .malformed

/-- Reads a set of tags. -/
def TagSet.decode (t : Tree) : Decoded TagSet := t.mapOf Tree.text

/-- Reads a stage of a ramp. -/
def Stage.decode (t : Tree) : Decoded Stage := do
  let f ← t.fields ["duration", "target"]
  return { duration := ← f.required "duration" Span.decode
           target := ← f.required "target" Tree.count }

/-- The fields of a scenario. -/
def ScenarioConfig.names : List String :=
  ["name", "executor", "vus", "iterations", "duration", "start_vus", "stages", "ramp", "tags",
    "start_time", "groups", "min_sleep", "max_sleep", "start_jitter", "iteration_pause",
    "expected_statuses", "control_interval"]

/-- Reads a scenario. -/
def ScenarioConfig.decode (t : Tree) : Decoded ScenarioConfig := do
  let f ← t.fields names
  return {
    name := ← f.required "name" Tree.text
    executor := ← f.required "executor" Tree.text
    vus := ← f.optional "vus" Tree.count
    iterations := ← f.optional "iterations" Tree.count
    duration := ← f.optional "duration" Span.decode
    startVus := ← f.optional "start_vus" Tree.count
    stages := ← f.withDefault "stages" [] (Tree.listOf Stage.decode)
    ramp := ← f.optional "ramp" Tree.text
    tags := ← f.withDefault "tags" SortedMap.empty TagSet.decode
    startTime := ← f.optional "start_time" Span.decode
    groups := ← f.optional "groups" (Tree.listOf Tree.text)
    minSleep := ← f.optional "min_sleep" Span.decode
    maxSleep := ← f.optional "max_sleep" Span.decode
    startJitter := ← f.optional "start_jitter" Span.decode
    iterationPause := ← f.optional "iteration_pause" Span.decode
    expectedStatuses := ← f.optional "expected_statuses" Tree.text
    controlInterval := ← f.optional "control_interval" Span.decode }

/-- Reads a threshold. -/
def ThresholdConfig.decode (t : Tree) : Decoded ThresholdConfig := do
  let f ← t.fields ["filter", "condition", "abort_on_fail", "delay_abort_eval"]
  return {
    filter := ← f.required "filter" Tree.text
    condition := ← f.required "condition" Tree.text
    abortOnFail := ← f.withDefault "abort_on_fail" false Tree.truth
    delayAbortEval := ← f.optional "delay_abort_eval" Span.decode }

/-- The fields of a configuration. -/
def Config.names : List String :=
  ["name", "target", "catalog", "seed", "checkpoint_interval", "summary_path", "scenarios",
    "thresholds"]

/-- Reads a configuration. -/
def Config.decode (t : Tree) : Decoded Config := do
  let f ← t.fields names
  return {
    name := ← f.required "name" Tree.text
    target := ← f.optional "target" Tree.text
    catalog := ← f.required "catalog" Tree.text
    seed := ← f.optional "seed" Tree.count
    checkpointInterval := ← f.optional "checkpoint_interval" Span.decode
    summaryPath := ← f.optional "summary_path" Tree.text
    scenarios := ← f.required "scenarios" (Tree.listOf ScenarioConfig.decode)
    thresholds := ← f.withDefault "thresholds" [] (Tree.listOf ThresholdConfig.decode) }

/-! ## Catalogs -/

/-- Reads a request that is given by its fields. -/
def RequestSpec.decodeFields (t : Tree) : Decoded RequestSpec := do
  match t with
  | .record _ =>
    let f ← t.fields ["path", "query", "tags"]
    return {
      path := ← f.required "path" Tree.text
      query := ← f.optional "query" Tree.text
      tags := ← f.withDefault "tags" SortedMap.empty TagSet.decode }
  | _ => .error .malformed

/-- Reads a request: a text, or a record.  What is in it is taken for what it looks like, whatever
is wanted. -/
def RequestSpec.decode (t : Tree) : Decoded RequestSpec := do
  let t ← need t.settled?
  match t.text? with
  | some s => return RequestSpec.read s
  | none => decodeFields t

/-- Reads a group. -/
def Group.decode (t : Tree) : Decoded Group := do
  let f ← t.fields ["label", "tags", "shuffle", "requests"]
  return {
    label := ← f.required "label" Tree.text
    tags := ← f.withDefault "tags" SortedMap.empty TagSet.decode
    shuffle := ← f.withDefault "shuffle" true Tree.truth
    requests := ← f.required "requests" (Tree.listOf RequestSpec.decode) }

/-- Reads a catalog. -/
def Catalog.decode (t : Tree) : Decoded Catalog := do
  let f ← t.fields ["groups"]
  return { groups := ← f.required "groups" (Tree.listOf Group.decode) }

end LoadReplay
