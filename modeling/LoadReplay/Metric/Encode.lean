import LoadReplay.Json.Writer
import LoadReplay.Metric.Selection

/-!
# Figures as JSON

The JSON value of the figures of a selection.
-/

namespace LoadReplay.Metric

open Json

/-- A length of time as its whole seconds and the nanoseconds beyond them. -/
def spanValue : Option Span → Value
  | none => .null
  | some a => .record [(some "secs", .ofNat a.seconds), (some "nanos", .ofNat a.subNanos)]

/-- The JSON value of some figures. -/
def Stats.encode (s : Stats) : Value :=
  .record [(some "count", .ofNat s.count), (some "failures", .ofNat s.failures),
    (some "min_ms", .ofFloat? s.minMs), (some "max_ms", .ofFloat? s.maxMs),
    (some "avg_ms", .ofFloat? s.avgMs), (some "p50_ms", .ofFloat? s.p50Ms),
    (some "p90_ms", .ofFloat? s.p90Ms), (some "p95_ms", .ofFloat? s.p95Ms),
    (some "p99_ms", .ofFloat? s.p99Ms), (some "first_sample_at", spanValue s.firstAt),
    (some "last_sample_at", spanValue s.lastAt),
    (some "status_codes",
      .record (s.statuses.entries.map fun e => (some (toString e.1), .ofNat e.2)))]

end LoadReplay.Metric
