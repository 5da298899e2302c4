import LoadReplay.Clock.Manual

/-!
# A clock that several threads move

A manual clock with everyone who moves it and the abort flag of their run.  Their steps come in any
order: a list of choices is one run.  A sleep is written down before the clock is moved, and one
that an abort can prevent looks at the flag first, so others can come between.
-/

namespace LoadReplay

/-- Where someone who uses the clock is. -/
inductive SharedClock.Call where
  /-- Sleeps unless the run is aborted: about to look at the flag. -/
  | checking (length : Span)
  /-- Sleeps: about to write the sleep down. -/
  | noting (length : Span)
  /-- About to move the clock. -/
  | moving (length : Span)
  /-- Is over; `moved` says whether the clock was moved. -/
  | over (moved : Bool)
  deriving DecidableEq

/-- A manual clock with everyone who uses it. -/
structure SharedClock where
  clock : ManualClock
  /-- Whether the run is aborted. -/
  aborted : Bool
  /-- All calls that were made. -/
  calls : List SharedClock.Call
  /-- The lengths that the clock was moved by, last first. -/
  moves : List Span

namespace SharedClock

/-- What happens next. -/
inductive Choice where
  /-- Someone begins to advance the clock. -/
  | advance (length : Span)
  /-- Someone begins to sleep. -/
  | sleep (length : Span)
  /-- Someone begins to sleep unless the run is aborted. -/
  | sleepUnless (length : Span)
  /-- The run is aborted. -/
  | abort
  /-- A call makes a step. -/
  | step (k : Nat)

/-- A clock that nobody has used. -/
def start : SharedClock := { clock := .start, aborted := false, calls := [], moves := [] }

/-- Begins a call. -/
def call (v : SharedClock) (c : Call) : SharedClock := { v with calls := v.calls ++ [c] }

/-- One step of a call, if there is one left. -/
def step (v : SharedClock) (k : Nat) : SharedClock :=
  match v.calls[k]? with
  | some (.checking length) =>
    { v with calls := v.calls.set k (if v.aborted then .over false else .noting length) }
  | some (.noting length) =>
    { v with
      clock := { v.clock with slept := length :: v.clock.slept }
      calls := v.calls.set k (.moving length) }
  | some (.moving length) =>
    { v with
      clock := v.clock.advance length
      calls := v.calls.set k (.over true)
      moves := length :: v.moves }
  | some (.over _) | none => v

/-- What happens when it is to happen. -/
def next (v : SharedClock) : Choice → SharedClock
  | .advance length => v.call (.moving length)
  | .sleep length => v.call (.noting length)
  | .sleepUnless length => v.call (.checking length)
  | .abort => { v with aborted := true }
  | .step k => v.step k

/-- One run, from some moment on. -/
def run (v : SharedClock) (choices : List Choice) : SharedClock := choices.foldl next v

/-- What the clock shows at the beginning of a run and after each choice. -/
def readings (v : SharedClock) : List Choice → List Span
  | [] => [v.clock.now]
  | choice :: choices => v.clock.now :: (v.next choice).readings choices

/-- How far the clock was moved in all, in nanoseconds. -/
def distance (v : SharedClock) : Nat :=
  v.moves.foldr (fun length total => (ManualClock.counted length).toNat + total) 0

end SharedClock

end LoadReplay
