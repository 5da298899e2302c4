import LoadReplay.Metric.Sample

/-!
# The recorder

Keeps every sample of a run.  Samples with the same tag set form one series, in the order in which
they were recorded; the series stand in the order of their first samples, which nothing that is read
back depends on.
-/

namespace LoadReplay.Metric

/-- What a series keeps of a sample. -/
structure Reading where
  sentAt : Span
  latencyMs : Float
  outcome : Outcome

/-- The samples of one tag set. -/
structure Series where
  readings : Array Reading
  /-- How often each status was received. -/
  statuses : SortedMap Nat Nat

/-- No samples. -/
def Series.empty : Series := ⟨#[], SortedMap.empty⟩

/-- One more occurrence of a key in a table of counts. -/
def tally (counts : SortedMap Nat Nat) (key times : Nat) : SortedMap Nat Nat :=
  counts.alter key fun n => n.getD 0 + times

/-- The series with one more sample. -/
def Series.push (s : Series) (sample : Sample) : Series :=
  { readings := s.readings.push ⟨sample.sentAt, sample.latencyMs, sample.outcome⟩
    statuses :=
      match sample.status with
      | none => s.statuses
      | some status => tally s.statuses status 1 }

/-- All samples recorded so far. -/
structure Recorder where
  series : List (TagSet × Series)

namespace Recorder

/-- Nothing recorded yet. -/
def empty : Recorder := ⟨[]⟩

/-- Adds a sample to the series of its tag set, which is begun if there is none. -/
def push (sample : Sample) : List (TagSet × Series) → List (TagSet × Series)
  | [] => [(sample.tags, Series.empty.push sample)]
  | (tags, s) :: rest =>
    if tags = sample.tags then (tags, s.push sample) :: rest
    else (tags, s) :: push sample rest

/-- Records a sample. -/
def record (r : Recorder) (sample : Sample) : Recorder := ⟨push sample r.series⟩

/-- How many samples were recorded. -/
def count (r : Recorder) : Nat :=
  r.series.foldr (fun e n => e.2.readings.size + n) 0

end Recorder

end LoadReplay.Metric
