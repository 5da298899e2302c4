import LoadReplay.Run.Crew

/-!
# Turnover

A crew whose users come and go.  One caller after another counts a new user in and starts its
thread, anyone tells users to retire, as often as they like and several at once, and threads leave
whenever they like.  All this is done in single steps that come in any order: a list of choices is
one run.

A new user is counted in by `Crew.work`, and a thread leaves by `Crew.leave`, as in a scene.  Only
telling a user to retire is taken apart further: to swap its flag is one step, and to count it as no
longer active, for whoever has swapped it first, is another.

The turnover remembers who was taken out of which count, and what the count of running users was
after each step.
-/

namespace LoadReplay

/-- A user is taken out of a count: the one with an index, or one that has not got a thread. -/
inductive Lowering where
  | active (user : Option Nat)
  | running (user : Option Nat)
  deriving Repr, DecidableEq

namespace Lowering

def isActive : Lowering → Bool
  | .active _ => true
  | .running _ => false

def isRunning : Lowering → Bool
  | .active _ => false
  | .running _ => true

end Lowering

/-- What a thread that stands there takes its user out of with its next step. -/
def Exit.lowers (i : Nat) : Exit → Option Lowering
  | .dropsActive => some (.active (some i))
  | .dropsRunning => some (.running (some i))
  | .staying | .closing | .exited => none

/-- What the next step takes a user out of whose thread could not be started. -/
def Crew.Task.lowers : Crew.Task → Option Lowering
  | .dropsNewActive => some (.active Option.none)
  | .dropsNewRunning => some (.running Option.none)
  | _ => Option.none

/-- A crew with everyone who changes its counts. -/
structure Turnover where
  crew : Crew
  /-- The users that somebody has told to retire and is about to count as no longer active. -/
  telling : List Nat
  /-- How many users anyone has begun to start. -/
  enrolled : Nat
  /-- Who was taken out of a count, last first. -/
  lowered : List Lowering
  /-- The count of running users after each step, last first. -/
  readings : List Nat

namespace Turnover

/-- What happens next. -/
inductive Choice where
  /-- Someone begins to start a user. -/
  | enrol (u : User)
  /-- Who starts a user makes a step. -/
  | work
  /-- The thread that is about to be started cannot be started. -/
  | refuse
  /-- Someone tells a user to retire. -/
  | tell (i : Nat)
  /-- Someone who has told a user to retire counts it as no longer active. -/
  | count (k : Nat)
  /-- The thread of a user makes a step on its way out. -/
  | leave (i : Nat)

/-- A crew without users. -/
def start : Turnover :=
  { crew := .empty, telling := [], enrolled := 0, lowered := [], readings := [0] }

/-- What a choice does.  It does nothing if it cannot happen: users are started one after another,
and nobody is told to retire that has not been started.  Whoever sets the flag that a user is to
retire has to count it as no longer active, in a step of its own. -/
def act (v : Turnover) : Choice → Turnover
  | .enrol u =>
    if v.crew.isIdle then { v with crew := v.crew.enrol u, enrolled := v.enrolled + 1 } else v
  | .work => { v with crew := v.crew.work.1 }
  | .refuse => { v with crew := v.crew.refuse }
  | .tell i =>
    if i < v.crew.nextIndex then
      { v with
        crew := v.crew.modify i fun t => { t with retired := true }
        telling := if v.crew.isRetired i then v.telling else v.telling ++ [i] }
    else v
  | .count k =>
    if k < v.telling.length then
      { v with
        crew := { v.crew with gauge := v.crew.gauge.dropActive }
        telling := v.telling.eraseIdx k }
    else v
  | .leave i => { v with crew := v.crew.leave i }

/-- Whom a choice takes out of a count. -/
def lowers (v : Turnover) : Choice → Option Lowering
  | .work => v.crew.task.lowers
  | .count k => v.telling[k]?.map fun i => .active (some i)
  | .leave i => v.crew.threads[i]?.bind fun t => t.exit.lowers i
  | .enrol _ | .refuse | .tell _ => none

/-- Writes down what a step has done. -/
def note (v : Turnover) (l : Option Lowering) : Turnover :=
  { v with lowered := l.toList ++ v.lowered, readings := v.crew.gauge.running :: v.readings }

/-- What happens when it is to happen. -/
def next (v : Turnover) (choice : Choice) : Turnover := (v.act choice).note (v.lowers choice)

/-- One run, from some moment on. -/
def run (v : Turnover) (choices : List Choice) : Turnover := choices.foldl next v

/-- Whether a new user is being counted in. -/
def countsIn (v : Turnover) : Bool :=
  match v.crew.task with
  | .addsActive _ | .addsRunning _ | .raisesPeak _ _ | .addsSpawned _ => true
  | _ => false

/-- Whether everyone is done who has begun to start a user or to tell one to retire. -/
def isQuiet (v : Turnover) : Bool := v.crew.isIdle && v.telling.isEmpty

/-- How many have set the flag that a user is to retire, and are about to count it as no longer
active: those who tell it so, or its own thread. -/
def due (v : Turnover) (i : Nat) : Nat :=
  v.telling.count i + (v.crew.threads[i]?.any (·.exit == .dropsActive)).toNat

/-- Whether the thread of a user has counted it as no longer running. -/
def hasLeft (v : Turnover) (i : Nat) : Bool :=
  v.crew.threads[i]?.any fun t => t.exit == .closing || t.exit == .exited

end Turnover

end LoadReplay
