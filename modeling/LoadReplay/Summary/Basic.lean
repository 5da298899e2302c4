import LoadReplay.SortedMap
import LoadReplay.Summary.Digest

/-!
# Summaries of runs

What is kept of a run once it is over.  The fingerprint of a summary depends on how the run was set
up and not on how it went, so it tells which runs can be compared.
-/

namespace LoadReplay

/-- What is kept of a scenario. -/
structure ScenarioSummary where
  name : String
  executor : String
  iterations : Nat
  peakVus : Nat
  interrupted : Bool

/-- What is kept of the figures of some samples. -/
structure FigureSummary where
  count : Nat
  failures : Nat
  avgMs : Option Float
  p50Ms : Option Float
  p90Ms : Option Float
  p95Ms : Option Float
  p99Ms : Option Float
  maxMs : Option Float

/-- What is kept of a threshold. -/
structure ThresholdSummary where
  rule : String
  observed : Option Float
  status : String

/-- What is kept of a run. -/
structure RunSummary where
  runId : String
  runName : String
  /-- When the run started, in seconds since 1970. -/
  startedAt : Int
  target : String
  scenarios : List ScenarioSummary
  /-- The figures of each tag, by the text of the tag. -/
  tags : SortedMap String FigureSummary
  total : FigureSummary
  thresholds : List ThresholdSummary
  verdict : String
  version : String

namespace RunSummary

/-- The scenarios by name; those of one name stay in order. -/
def byName (scenarios : List ScenarioSummary) : List ScenarioSummary :=
  scenarios.mergeSort fun a b => (compare a.name b.name).isLE

/-- The texts that the fingerprint depends on, in order. -/
def identity (s : RunSummary) : List String :=
  [s.runName, s.target]
    ++ (byName s.scenarios).flatMap (fun c => [c.name, c.executor])
    ++ s.thresholds.map (·.rule)
    ++ [s.version]

/-- The bytes that the fingerprint is the hash of. -/
def identityBytes (s : RunSummary) : List UInt8 := s.identity.flatMap fun t => t.toUTF8.toList

/-- The fingerprint. -/
def fingerprint (s : RunSummary) : String := Digest.hexadecimal (Digest.sha3 s.identityBytes)

end RunSummary

end LoadReplay
