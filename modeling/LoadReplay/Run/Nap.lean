import LoadReplay.Run.Pause

/-!
# Naps

One pause with the clock and the abort flag that it reads.  Time passes and an abort comes whenever
they like, between any two steps of the pause, so a list of choices is one run.  A sleep lasts until
the clock has moved on by its length since it was begun, or for longer.

The steps are those of `Pause.step`, which also controllers and users pause by.  A nap adds the
clock, the flag and the time that passes between asking for a sleep and beginning it.
-/

namespace LoadReplay

/-- Whether the next step of a pause looks at the abort flag. -/
def Pause.readsFlag : Pause → Bool
  | .glance | .checking _ | .whole _ => true
  | _ => false

/-- A sleep, and what the clock showed when its length was worked out. -/
structure Nap.Sleep where
  asked : Span
  length : Span
  deriving DecidableEq

/-- Where someone who pauses is. -/
inductive Nap.Stage where
  /-- About to make a step of the pause. -/
  | up (p : Pause)
  /-- About to begin a sleep. -/
  | turning (sleep : Nap.Sleep) (p : Pause)
  /-- Asleep until the clock shows `wake`. -/
  | asleep (wake : Nat) (p : Pause)
  /-- Back from the pause; `full` says whether it had its full length. -/
  | back (full : Bool)
  /-- The deadline lies beyond all spans. -/
  | overflown
  deriving DecidableEq

/-- A pause with all that it reads. -/
structure Nap where
  clock : Span
  aborted : Bool
  stage : Nap.Stage
  /-- The sleeps that were begun, last first. -/
  slept : List Nap.Sleep

namespace Nap

/-- What happens next. -/
inductive Choice where
  /-- The clock moves on and shows `now`. -/
  | passes (now : Span)
  /-- The run is aborted. -/
  | abort
  /-- Who pauses makes a step. -/
  | step
  deriving DecidableEq

/-- A pause that is about to begin. -/
def start (now : Span) (aborted : Bool) (p : Pause) : Nap :=
  { clock := now, aborted, stage := .up p, slept := [] }

/-- One step of who pauses, unless it sleeps or is back. -/
def step (v : Nap) : Nap :=
  match v.stage with
  | .up p =>
    match p.step v.clock v.aborted with
    | .goesOn p' => { v with stage := .up p' }
    | .sleeps length p' => { v with stage := .turning ⟨v.clock, length⟩ p' }
    | .ends full => { v with stage := .back full }
    | .overflows => { v with stage := .overflown }
  | .turning sleep p =>
    { v with
      stage := .asleep (v.clock.nanos + sleep.length.nanos) p
      slept := sleep :: v.slept }
  | .asleep wake p => if wake ≤ v.clock.nanos then { v with stage := .up p } else v
  | .back _ | .overflown => v

/-- What happens when it is to happen.  The clock never goes back. -/
def next (v : Nap) : Choice → Nap
  | .passes now => if v.clock ≤ now then { v with clock := now } else v
  | .abort => { v with aborted := true }
  | .step => v.step

/-- One run, from some moment on. -/
def run (v : Nap) (choices : List Choice) : Nap := choices.foldl next v

/-- Whether who pauses can make a step. -/
def isReady (v : Nap) : Bool :=
  match v.stage with
  | .up _ | .turning .. => true
  | .asleep wake _ => wake ≤ v.clock.nanos
  | .back _ | .overflown => false

/-- Whether the next step looks at the abort flag. -/
def looks (v : Nap) : Bool :=
  match v.stage with
  | .up p => p.readsFlag
  | _ => false

/-- How many steps a run makes at moments of a kind. -/
def steps (kind : Nap → Bool) (v : Nap) : List Choice → Nat
  | [] => 0
  | choice :: choices =>
    (if choice = .step ∧ kind v then 1 else 0) + (v.next choice).steps kind choices

end Nap

end LoadReplay
