import LoadReplay.Rehearsal.Step
import LoadReplay.Run.Execution
import LoadReplay.Run.Plan

/-!
# Whole rehearsals

From the plan of a run to what is there in the end.
-/

namespace LoadReplay.Rehearsal

/-- How the clock of a rehearsal works. -/
inductive ClockKind where
  | turns
  | manual
  deriving Repr, DecidableEq

/-- The clock at the beginning. -/
def ClockKind.start : ClockKind → Clock
  | .turns => .turns .zero
  | .manual => .manual .start

/-- A run before anything has happened.  Where threads take turns, the scenarios wait for their
first turn. -/
def State.start (kind : ClockKind) (setting : Setting) (plan : Plan) (target : Target) : State :=
  let clock := kind.start
  let scenarios := (List.range plan.posts.length).map ThreadId.scenario
  let monitored := setting.interval.isSome && !plan.definition.thresholds.isEmpty
  let monitor := if monitored then [ThreadId.monitor] else []
  { clock
    aborted := false
    recorder := .empty
    target
    calls := []
    ticks := []
    controllers := plan.posts.mapIdx fun i post =>
      .new clock.waiting (.ofUsers plan.definition.seed (setting.keys i) post.scenario.name) post
    monitor := if monitored then .waiting else .ended none
    checkpoints := 0
    lost := false
    sleepers := if clock.hasTurns then scenarios.map (Sleeper.mk clock.now) else []
    fresh := []
    flights := []
    running := monitor ++ if clock.hasTurns then [] else scenarios }

/-- The last checkpoint, when all scenarios have ended. -/
def State.lastCheckpoint (rules : List Rule) (s : State) : State :=
  match s.monitor with
  | .timing => s.setVigil (s.vigil.judge rules s.now fun _ => [])
  | _ => s

/-- What is there when the run is over; nothing if a scenario has not ended. -/
def State.aftermath? (s : State) : Option Aftermath := do
  let outcomes ← s.controllers.mapM (·.outcome?)
  return {
    recorder := s.recorder
    aborted := s.aborted
    cause := if s.lost then .error .monitor else .ok s.monitor.cause?
    outcomes }

/-- How many steps a rehearsal may take. -/
def maxSteps : Nat := 100000000

/-- Carries a run out up to its end. -/
def rehearse (kind : ClockKind) (setting : Setting) (plan : Plan) (target : Target) :
    State × Bool :=
  let rules := plan.definition.thresholds
  let (s, ended) := (State.start kind setting plan target).run setting rules maxSteps
  (s.lastCheckpoint rules, ended)

end LoadReplay.Rehearsal
