import LoadReplay.Clock.Manual
import LoadReplay.Rehearsal.Target
import LoadReplay.Run.Controller
import LoadReplay.Run.Vigil

/-!
# The state of a rehearsal

A rehearsal is a run against a scripted target with a clock of its own.  Its threads take turns: one
of them goes on until it has to wait, and then the sleeper that wakes first.  So a rehearsal has one
outcome, which shows what a run does when nothing comes in between.
-/

namespace LoadReplay.Rehearsal

/-- A thread of a run. -/
inductive ThreadId where
  | scenario (i : Nat)
  /-- Virtual user `j` of scenario `i`. -/
  | user (i j : Nat)
  | monitor
  deriving Repr, DecidableEq

/-- Where a thread stands among those that wake at the same time: scenarios first, then users, then
the monitor. -/
def ThreadId.rank : ThreadId → List Nat
  | .scenario i => [0, i]
  | .user i j => [1, i, j]
  | .monitor => [2]

/-- A thread that sleeps. -/
structure Sleeper where
  wake : Span
  thread : ThreadId

/-- Whether a sleeper goes on before another. -/
def Sleeper.before (a b : Sleeper) : Bool :=
  a.wake < b.wake || (a.wake == b.wake && a.thread.rank < b.thread.rank)

/-- The clock of a rehearsal. -/
inductive Clock where
  /-- Shows the wake time of the thread that goes on. -/
  | turns (now : Span)
  /-- Is moved by the threads themselves, which never wait. -/
  | manual (clock : ManualClock)

/-- What the clock shows. -/
def Clock.now : Clock → Span
  | .turns now => now
  | .manual clock => clock.now

/-- How the clock is waited for. -/
def Clock.waiting : Clock → Waiting
  | .turns _ => .polled
  | .manual _ => .whole

/-- Whether threads wait for one another. -/
def Clock.hasTurns : Clock → Bool
  | .turns _ => true
  | .manual _ => false

/-- A request that has no answer yet. -/
inductive Flight where
  /-- The answer comes after a pause. -/
  | underway (p : Pause) (answer : Answer)
  /-- There will be no answer. -/
  | silent

/-- A request that was sent. -/
structure Call where
  time : Span
  user : String
  path : String
  group : String

/-- How many users a scenario had when its controller went to sleep. -/
structure Tick where
  time : Span
  scenario : Nat
  active : Nat
  running : Nat
  deriving DecidableEq

/-- What a rehearsal is told besides its plan. -/
structure Setting where
  /-- No thread sleeps longer than this without the run being aborted. -/
  limit : Option Span
  /-- One more request aborts the run. -/
  maxCalls : Nat
  /-- Whether requests that are never answered fail. -/
  timesOut : Bool
  /-- How often the monitor judges the rules, if it does. -/
  interval : Option Span
  /-- Whether an error of the program that ends one thread ends all that wait for their turn. -/
  fragile : Bool
  /-- The keys that the users of a run without a seed get, by scenario and index. -/
  keys : Nat → Nat → List UInt32

/-- Where a rehearsal is. -/
structure State where
  clock : Clock
  aborted : Bool
  recorder : Metric.Recorder
  target : Target
  /-- The requests that were sent, the last one first. -/
  calls : List Call
  /-- The last one first. -/
  ticks : List Tick
  controllers : List Controller
  monitor : Monitor
  /-- How often the monitor judged the rules. -/
  checkpoints : Nat
  /-- Whether an error of the program has ended the monitor. -/
  lost : Bool
  sleepers : List Sleeper
  /-- The threads that have not read the clock yet. -/
  fresh : List ThreadId
  flights : List (ThreadId × Flight)
  /-- The thread that goes on, and below it those that go on when it waits. -/
  running : List ThreadId

namespace State

/-- What the clock shows. -/
def now (s : State) : Span := s.clock.now

/-- The thread that goes on waits for something. -/
def rest (s : State) : State := { s with running := s.running.tail }

/-- A thread sleeps until a moment. -/
def sleepUntil (s : State) (t : ThreadId) (wake : Span) : State :=
  { s.rest with sleepers := ⟨wake, t⟩ :: s.sleepers }

/-- A thread sleeps for some time.  A clock that is moved by hand moves at once. -/
def sleep (s : State) (t : ThreadId) (length : Span) : State :=
  match s.clock with
  | .turns now => s.sleepUntil t ((now.add? length).getD now)
  | .manual clock => { s with clock := .manual (clock.sleep length) }

/-- Whether a thread has to wait for its turn because it is about to read the clock for the first
time. -/
def isFirstReading (s : State) (t : ThreadId) (readsClock : Bool) : Bool :=
  readsClock && s.clock.hasTurns && s.fresh.contains t

/-- A thread waits for its turn to read the clock for the first time. -/
def awaitTurn (s : State) (t : ThreadId) : State :=
  { s.sleepUntil t s.now with fresh := s.fresh.filter (· != t) }

/-- Changes a controller. -/
def modifyController (s : State) (i : Nat) (f : Controller → Controller) : State :=
  { s with controllers := s.controllers.modify i f }

/-- Changes the crew of a scenario. -/
def modifyCrew (s : State) (i : Nat) (f : Crew → Crew) : State :=
  s.modifyController i fun c => { c with crew := f c.crew }

/-- Changes a virtual user. -/
def modifyUser (s : State) (i j : Nat) (f : User → User) : State :=
  s.modifyCrew i fun crew => crew.modify j fun t => { t with user := f t.user }

/-- Sets what a request of a thread waits for. -/
def setFlight (s : State) (t : ThreadId) (f : Flight) : State :=
  { s with flights := (t, f) :: s.flights.filter (·.1 != t) }

/-- A request of a thread no longer waits. -/
def dropFlight (s : State) (t : ThreadId) : State :=
  { s with flights := s.flights.filter (·.1 != t) }

/-- Aborts the run. -/
def abort (s : State) : State := { s with aborted := true }

end State

end LoadReplay.Rehearsal
