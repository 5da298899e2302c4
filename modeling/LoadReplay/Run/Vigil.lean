import LoadReplay.Run.Monitor

/-!
# Vigils

A monitor together with what it shares with the rest of the run: the samples and the abort flag.
What happens to it is a list of `Vigil.Event`s.  A checkpoint says what the other threads do between
its steps, so a list of events is one run of the monitor, whatever they do.

The monitor makes its steps by `Monitor.step`, as it does in a rehearsal, and samples are recorded by
`Recorder.record`; a vigil only leaves open what comes between.
-/

namespace LoadReplay

/-- A monitor and the run that it watches. -/
structure Vigil where
  monitor : Monitor
  recorder : Metric.Recorder
  aborted : Bool

namespace Vigil

/-- What other threads do to a run. -/
inductive Disturbance where
  | record (sample : Sample)
  /-- An operator aborts the run. -/
  | abort

/-- What happens to a monitor. -/
inductive Event where
  | disturb (d : Disturbance)
  /-- It is time for a checkpoint; `elapsed` is what the clock shows then, `early` what is done
  after the look at the abort flag, and `late k` what is done before the rule at `k` is judged, or
  before a step that comes after the rules. -/
  | checkpoint (elapsed : Span) (early : List Disturbance) (late : Nat → List Disturbance)
  /-- The run is over. -/
  | stop

/-- A monitor before anything has happened. -/
def start : Vigil := { monitor := .waiting, recorder := .empty, aborted := false }

/-- The run when another thread has done something. -/
def disturb (s : Vigil) : Disturbance → Vigil
  | .record sample => { s with recorder := s.recorder.record sample }
  | .abort => { s with aborted := true }

/-- The run when other threads have done some things. -/
def disturbAll (s : Vigil) (ds : List Disturbance) : Vigil := ds.foldl disturb s

variable (rules : List Rule)

/-- One step of the monitor. -/
def step (s : Vigil) (elapsed : Span) : Vigil :=
  { s with
    monitor := s.monitor.step rules s.recorder elapsed s.aborted
    aborted := s.aborted || s.monitor.aborts }

/-- Some steps of the monitor, after each of which others do something; the first step is the one at
`k`. -/
def steps (elapsed : Span) (late : Nat → List Disturbance) : Nat → Nat → Vigil → Vigil
  | 0, _, s => s
  | n + 1, k, s => steps elapsed late n (k + 1) ((s.disturbAll (late k)).step rules elapsed)

/-- The monitor judges its rules, decides and aborts the run if it has to. -/
def judge (s : Vigil) (elapsed : Span) (late : Nat → List Disturbance) : Vigil :=
  steps rules elapsed late (rules.length + 2) 0 (s.step rules elapsed)

/-- The vigil after something has happened. -/
def next (s : Vigil) : Event → Vigil
  | .disturb d => s.disturb d
  | .checkpoint elapsed early late =>
    let s := { s with monitor := s.monitor.wake }
    ((s.step rules elapsed).disturbAll early).judge rules elapsed late
  | .stop => { s with monitor := s.monitor.stop }

/-- One run of a monitor, from some moment on. -/
def run (s : Vigil) (events : List Event) : Vigil := events.foldl (next rules) s

end Vigil

end LoadReplay
