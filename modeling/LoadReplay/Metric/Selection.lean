import LoadReplay.Metric.Percentile
import LoadReplay.Metric.Recorder
import LoadReplay.Tag.Filter

/-!
# Selections and their statistics

A selection is what a filter picks out of a recorder.  Its latencies are sorted in the total order
of binary64 values, so that every figure computed from them is independent of the order in which
samples and series came.
-/

namespace LoadReplay.Metric

/-- The samples picked out by a filter. -/
structure Selection where
  successes : Nat
  failures : Nat
  latenciesMs : List Float
  timestamps : List Span
  statuses : SortedMap Nat Nat

/-- The figures of a selection.  All but the counts are missing when nothing was selected. -/
structure Stats where
  count : Nat
  failures : Nat
  minMs : Option Float
  maxMs : Option Float
  avgMs : Option Float
  p50Ms : Option Float
  p90Ms : Option Float
  p95Ms : Option Float
  p99Ms : Option Float
  firstAt : Option Span
  lastAt : Option Span
  statuses : SortedMap Nat Nat

namespace Selection

/-- Nothing selected. -/
def empty : Selection := ⟨0, 0, [], [], SortedMap.empty⟩

/-- Whether a reading has the wanted outcome. -/
def wanted (success : Option Bool) (r : Reading) : Bool :=
  success.all (· == r.outcome.isSuccess)

/-- The selection with the wanted readings of one more series.  Status counts are kept for a whole
series, so a restriction to an outcome leaves them out. -/
def add (success : Option Bool) (sel : Selection) (s : Series) : Selection :=
  let kept := s.readings.toList.filter (wanted success)
  { successes := sel.successes + kept.countP fun r => r.outcome.isSuccess
    failures := sel.failures + kept.countP fun r => !r.outcome.isSuccess
    latenciesMs := sel.latenciesMs ++ kept.map (·.latencyMs)
    timestamps := sel.timestamps ++ kept.map (·.sentAt)
    statuses :=
      if success.isSome then sel.statuses
      else s.statuses.entries.foldl (fun counts e => tally counts e.1 e.2) sel.statuses }

/-- The selection with its latencies ascending. -/
def sorted (sel : Selection) : Selection :=
  { sel with
    latenciesMs := sel.latenciesMs.mergeSort fun a b =>
      decide (Number.orderKey a ≤ Number.orderKey b) }

/-- All readings of some series with the wanted outcome. -/
def ofSeries (success : Option Bool) (series : List Series) : Selection :=
  (series.foldl (add success) empty).sorted

/-- How many samples were selected. -/
def count (sel : Selection) : Nat := sel.successes + sel.failures

/-- Whether nothing was selected. -/
def isEmpty (sel : Selection) : Bool := sel.count == 0

/-- The part of the selected samples that failed. -/
def failureRate (sel : Selection) : Option Float :=
  if sel.isEmpty then none else some (Number.ofCount sel.failures / Number.ofCount sel.count)

/-- The mean latency: the sum from the smallest latency up, divided by the count. -/
def mean (sel : Selection) : Option Float :=
  if sel.latenciesMs.isEmpty then none
  else some (sel.latenciesMs.foldl (· + ·) 0.0 / Number.ofCount sel.latenciesMs.length)

/-- The latency at the place that `ranking` gives percentile `p` among as many values. -/
def percentileBy (ranking : Nat → Float → Place Float) (sel : Selection) (p : Float) :
    Option Float :=
  valueAt sel.latenciesMs (ranking sel.latenciesMs.length p)

/-- Percentile `p` of the latencies. -/
def percentile (sel : Selection) (p : Float) : Option Float := sel.percentileBy place p

/-- The least latency. -/
def min (sel : Selection) : Option Float := sel.latenciesMs.head?

/-- The greatest latency. -/
def max (sel : Selection) : Option Float := sel.latenciesMs.getLast?

/-- When the first of the samples was sent. -/
def firstAt (sel : Selection) : Option Span :=
  match sel.timestamps with
  | [] => none
  | t :: rest => some (rest.foldl Span.least t)

/-- When the last of the samples was sent. -/
def lastAt (sel : Selection) : Option Span :=
  match sel.timestamps with
  | [] => none
  | t :: rest => some (rest.foldl Span.greatest t)

/-- The figures of a selection. -/
def stats (sel : Selection) : Stats :=
  { count := sel.count
    failures := sel.failures
    minMs := sel.min
    maxMs := sel.max
    avgMs := sel.mean
    p50Ms := sel.percentile 50.0
    p90Ms := sel.percentile 90.0
    p95Ms := sel.percentile 95.0
    p99Ms := sel.percentile 99.0
    firstAt := sel.firstAt
    lastAt := sel.lastAt
    statuses := sel.statuses }

end Selection

namespace Recorder

/-- The samples that pass a filter. -/
def select (r : Recorder) (f : TagFilter) : Selection :=
  .ofSeries f.wantsSuccess ((r.series.filter fun e => f.accepts e.1).map (·.2))

/-- The figures over all samples. -/
def total (r : Recorder) : Stats := (r.select TagFilter.any).stats

/-- Adds a series to the selections of all its tags. -/
def fanOut (rows : SortedMap Tag Selection) (e : TagSet × Series) : SortedMap Tag Selection :=
  (TagSet.tags e.1).foldl
    (fun rows t => rows.alter t fun sel => (sel.getD .empty).add none e.2) rows

/-- The figures of each tag, in the order of the tags.  One pass over the series feeds the
selections of all tags at once. -/
def byTag (r : Recorder) : List (Tag × Stats) :=
  (r.series.foldl fanOut .empty).entries.map fun e => (e.1, e.2.sorted.stats)

end Recorder

end LoadReplay.Metric
