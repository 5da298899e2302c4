import LoadReplay.Run.Budget
import LoadReplay.Run.Crew
import LoadReplay.Run.Report
import LoadReplay.Scenario.Ramp

/-!
# Controllers

The controller of a scenario starts its virtual users, adjusts their number, and joins them in the
end.  Whatever happens, before it ends it tells the users to retire and waits for them.

`Controller.step` is one step that no other thread can divide, as for virtual users.  While the crew
is in the middle of something, it is a step of that.
-/

namespace LoadReplay

namespace Controller

/-- A control loop in progress. -/
inductive Loop where
  /-- Up to a moment. -/
  | untilTime (deadline : Span)
  /-- Along a ramp that began at a moment and has a length. -/
  | along (start : Nat) (stages : List Stage) (shape : RampShape) (began length : Span)

/-- Where a controller is. -/
inductive Phase where
  /-- Waiting for the start time of the scenario. -/
  | delaying (p : Pause)
  /-- About to read the clock at the start. -/
  | starting
  /-- About to start some users, all at once. -/
  | recruiting (left : Nat)
  /-- About to read the clock before the control loop. -/
  | entering
  /-- About to read the clock in the control loop. -/
  | deciding (loop : Loop)
  /-- About to start or retire a user, before a pause. -/
  | scaling (target : Nat) (pause : Span) (loop : Loop)
  | ticking (p : Pause) (loop : Loop)
  /-- Waiting for users, the first one first; `last` says whether the scenario is being wound up. -/
  | joining (queue : List Nat) (last : Bool)
  /-- About to wind the scenario up. -/
  | closing
  /-- About to tell some users to retire. -/
  | telling (users : List Nat)
  /-- About to read the clock at the end. -/
  | reporting
  | ended (report : ScenarioReport)
  /-- Ended because joining or starting a user failed. -/
  | failed
  /-- Ended by an error of the program. -/
  | crashed

/-- What a step does to the run. -/
inductive Effect where
  | nothing
  | sleeps (length : Span)
  /-- Starts the user that is now the last one of the crew. -/
  | spawns
  /-- Wants a number of users. -/
  | aims (target : Nat)
  | joins (user : Nat)
  /-- Fails to join a user, and gives others up. -/
  | breaks (user : Nat) (others : List Nat)

end Controller

/-- The controller of a scenario. -/
structure Controller where
  post : Post
  /-- The generators that its users get, by their indices. -/
  generators : Nat → Random.Generator
  crew : Crew
  /-- The iterations that its users share, if their number is fixed. -/
  budget : Option Budget
  /-- When it started. -/
  began : Span
  /-- Whether a control pause was cut short by an abort. -/
  cut : Bool
  /-- Whether joining or starting a user failed. -/
  broken : Bool
  phase : Controller.Phase

namespace Controller

/-- A controller at the beginning of a run. -/
def new (w : Waiting) (generators : Nat → Random.Generator) (post : Post) : Controller :=
  { post, generators
    crew := .empty
    budget := none
    began := .zero
    cut := false
    broken := false
    phase :=
      if post.scenario.startTime.isZero then .starting
      else .delaying (.start w post.scenario.startTime) }

/-- How many users a scenario of a fixed number of iterations has: no more than iterations. -/
def recruits (iterations concurrency : Nat) : Nat := min iterations concurrency

/-- The controller when it has read the clock at the start. -/
def start (c : Controller) (now : Span) : Controller :=
  let c := { c with began := now }
  match c.post.scenario.executor with
  | .fixedIterations iterations concurrency =>
    if iterations = 0 then { c with phase := .closing }
    else
      { c with
        budget := some (.full iterations)
        phase := .recruiting (recruits iterations concurrency) }
  | .constantConcurrency concurrency _ => { c with phase := .recruiting concurrency }
  | .rampingConcurrency _ _ _ => { c with phase := .entering }

/-- The controller that begins to start one more user. -/
def enrol (c : Controller) : Controller :=
  { c with crew := c.crew.enrol (.new c.crew.nextIndex (c.generators c.crew.nextIndex)) }

/-- The controller when it has started its first users. -/
def recruited (c : Controller) : Controller :=
  match c.post.scenario.executor with
  | .fixedIterations _ _ =>
    -- The users end by themselves when the budget is used up.
    let (crew, queue) := c.crew.release
    { c with crew, phase := .joining queue false }
  | _ => { c with phase := .entering }

/-- The control loop, from a reading of the clock before it.  There is none if its end lies beyond
all spans. -/
def loop? (c : Controller) (now : Span) : Option Loop :=
  match c.post.scenario.executor with
  | .fixedIterations _ _ => none
  | .constantConcurrency _ duration => (now.add? duration).map .untilTime
  | .rampingConcurrency start stages shape =>
    (Ramp.totalDuration? stages).map fun length => .along start stages shape now length

/-- What a control loop decides at a reading of the clock. -/
inductive Decision where
  | finish
  /-- To have some users, if their number is to change, and to look again after a pause. -/
  | goOn (target : Option Nat) (pause : Span)
  | overflow
  deriving DecidableEq

/-- What a control loop decides at a reading of the clock. -/
def Loop.decide (interval now : Span) : Loop → Decision
  | .untilTime deadline =>
    if deadline ≤ now then .finish else .goOn none (Span.least interval (deadline - now))
  | .along start stages shape began length =>
    let elapsed := now - began
    match Ramp.pointAt Float start stages shape elapsed with
    | none => .overflow
    | some point =>
      if point.finished then .finish
      else .goOn (some point.target) (Span.least interval (length - elapsed))

/-- Whether the users are reaped even if the loop is about to end. -/
def Loop.reapsLast : Loop → Bool
  | .untilTime _ => false
  | .along _ _ _ _ _ => true

/-- The controller when joining or starting a user has failed. -/
def breakUp (c : Controller) : Controller := { c with broken := true, phase := .closing }

/-- The controller after a reading of the clock in its control loop. -/
def decide (c : Controller) (w : Waiting) (loop : Loop) (now : Span) : Controller × Effect :=
  match loop.decide c.post.scenario.controlInterval now with
  | .overflow => ({ c with phase := .crashed }, .nothing)
  | .finish =>
    let crew := if loop.reapsLast then c.crew.reap else c.crew
    ({ c with crew, phase := .closing }, .nothing)
  | .goOn (some target) pause =>
    ({ c with crew := c.crew.reap, phase := .scaling target pause loop }, .aims target)
  | .goOn none pause =>
    ({ c with crew := c.crew.reap, phase := .ticking (.start w pause) loop }, .nothing)

/-- The controller after one adjustment of its crew. -/
def scale (c : Controller) (w : Waiting) (target : Nat) (pause : Span) (loop : Loop) : Controller :=
  match c.crew.adjustment target with
  | .retire => { c with crew := c.crew.retireNewest }
  | .spawn => c.enrol
  | .nothing => { c with phase := .ticking (.start w pause) loop }

/-- The controller when all users of a queue are joined, or joining one has failed. -/
def joined (c : Controller) (last : Bool) : Controller :=
  if last then { c with phase := if c.broken then .failed else .reporting }
  else { c with phase := .closing }

/-- The controller when the thread of the next user of a queue has exited. -/
def joinNext (c : Controller) (i : Nat) (rest : List Nat) (last : Bool) : Controller × Effect :=
  match c.crew.join? i with
  | some crew => ({ c with crew, phase := .joining rest last }, .joins i)
  | none => ({ c with broken := true }.joined last, .breaks i rest)

/-- What the scenario did. -/
def report (c : Controller) (now : Span) : ScenarioReport :=
  { name := c.post.scenario.name
    executor := c.post.scenario.executor.text
    iterations := c.crew.iterations
    vusSpawned := c.crew.gauge.spawned
    peakVus := c.crew.gauge.peak
    interrupted := c.cut || c.crew.interrupted
    elapsed := now - c.began }

/-- The controller after a step of the pause before its start. -/
def delayNext (c : Controller) : Pause.Next → Controller × Effect
  | .goesOn p => ({ c with phase := .delaying p }, .nothing)
  | .sleeps d p => ({ c with phase := .delaying p }, .sleeps d)
  | .ends true => ({ c with phase := .starting }, .nothing)
  | .ends false => ({ c with phase := .ended (.notStarted c.post.scenario) }, .nothing)
  | .overflows => ({ c with phase := .crashed }, .nothing)

/-- The controller after a step of a control pause. -/
def tickNext (c : Controller) (loop : Loop) : Pause.Next → Controller × Effect
  | .goesOn p => ({ c with phase := .ticking p loop }, .nothing)
  | .sleeps d p => ({ c with phase := .ticking p loop }, .sleeps d)
  | .ends true => ({ c with phase := .deciding loop }, .nothing)
  | .ends false => ({ c with cut := true, phase := .closing }, .nothing)
  | .overflows => ({ c with phase := .crashed }, .nothing)

/-- One step of a controller whose crew is in the middle of nothing. -/
def act (w : Waiting) (now : Span) (aborted : Bool) (c : Controller) : Controller × Effect :=
  match c.phase with
  | .delaying p => c.delayNext (p.step now aborted)
  | .starting => (c.start now, .nothing)
  | .recruiting 0 => (c.recruited, .nothing)
  | .recruiting (left + 1) => ({ c with phase := .recruiting left }.enrol, .nothing)
  | .entering =>
    match c.loop? now with
    | none => ({ c with phase := .crashed }, .nothing)
    | some loop => ({ c with phase := .deciding loop }, .nothing)
  | .deciding loop => c.decide w loop now
  | .scaling target pause loop => (c.scale w target pause loop, .nothing)
  | .ticking p loop => c.tickNext loop (p.step now aborted)
  | .joining [] last => (c.joined last, .nothing)
  | .joining (i :: rest) last =>
    if c.crew.isExited i then c.joinNext i rest last else (c, .nothing)
  | .closing => ({ c with phase := .telling (c.crew.live ++ c.crew.draining) }, .nothing)
  | .telling (i :: rest) => ({ c with crew := c.crew.tell i, phase := .telling rest }, .nothing)
  | .telling [] =>
    let (crew, queue) := c.crew.release
    ({ c with crew, phase := .joining queue true }, .nothing)
  | .reporting => ({ c with phase := .ended (c.report now) }, .nothing)
  | .ended _ => (c, .nothing)
  | .failed => (c, .nothing)
  | .crashed => (c, .nothing)

/-- One step of what the crew is in the middle of. -/
def work (c : Controller) : Controller × Effect :=
  let (crew, outcome) := c.crew.work
  let c := { c with crew }
  match outcome with
  | .nothing => (c, .nothing)
  | .started => (c, .spawns)
  | .joined i => (c, .joins i)
  -- The other users are told to retire and waited for, but not those that are given up.
  | .broken i rest => (c.breakUp, .breaks i rest)
  | .refused => (c.breakUp, .nothing)

/-- One step of a controller.  It does not move while it waits for a user, and when it has ended. -/
def step (w : Waiting) (now : Span) (aborted : Bool) (c : Controller) : Controller × Effect :=
  if c.crew.isIdle then c.act w now aborted else c.work

/-- Whether the next step reads the clock. -/
def readsClock (c : Controller) : Bool :=
  c.crew.isIdle && match c.phase with
  | .delaying p | .ticking p _ => p.readsClock
  | .starting | .entering | .deciding _ | .reporting => true
  | _ => false

/-- Whether a controller waits for a user whose thread has not exited. -/
def isWaiting (c : Controller) : Bool :=
  match c.phase with
  | .joining (i :: _) _ => !c.crew.isExited i
  | _ => false

/-- Whether a virtual user may begin an iteration. -/
def grants (c : Controller) : Bool := c.budget.all fun b => b.claim?.isSome

/-- The controller after a claim that it has granted. -/
def claim (c : Controller) : Controller := { c with budget := c.budget.bind (·.claim?) }

/-- Whether a controller has ended. -/
def isOver (c : Controller) : Bool :=
  match c.phase with
  | .ended _ | .failed | .crashed => true
  | _ => false

end Controller

end LoadReplay
