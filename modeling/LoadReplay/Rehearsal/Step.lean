import LoadReplay.Rehearsal.State

/-!
# The steps of a rehearsal

One step of the thread that goes on, and the choice of the next thread when it waits.
-/

namespace LoadReplay.Rehearsal

namespace State

/-! ## Requests -/

/-- A virtual user gets a reply. -/
def reply (s : State) (i j : Nat) (r : Reply) : State :=
  (s.dropFlight (.user i j)).modifyUser i j (·.receive r)

/-- A virtual user is ended by an error of the program. -/
def crashUser (s : State) (i j : Nat) : State :=
  (s.dropFlight (.user i j)).modifyUser i j (·.crash)

/-- The time before an answer has passed. -/
def settle (setting : Setting) (s : State) (i j : Nat) : Answer → State
  | .status code => s.reply i j (.status code)
  | .failure => s.reply i j .failed
  | .silence =>
    if setting.timesOut then s.reply i j .failed else s.setFlight (.user i j) .silent
  | .crash => s.crashUser i j

/-- The target gets a request that it will answer. -/
def answer (setting : Setting) (s : State) (i j : Nat) (latency : Option Span) (a : Answer) :
    State :=
  match latency, s.clock with
  | none, _ => s.settle setting i j a
  | some d, .turns _ => s.setFlight (.user i j) (.underway (.opening d) a)
  | some d, .manual clock => { s with clock := .manual (clock.advance d) }.settle setting i j a

/-- A virtual user sends a request.  In an aborted run nothing is answered, and neither is the
request that aborts it. -/
def send (setting : Setting) (s : State) (i j : Nat) (scenario : String)
    (request : PreparedRequest) : State :=
  let call : Call :=
    { time := s.now
      user := User.name scenario j
      path := request.url.pathAndQuery
      group := request.group }
  -- A call is noted whatever comes of it.
  let s := { s with calls := call :: s.calls }
  if s.aborted then s.reply i j .cancelled
  else if setting.maxCalls < s.calls.length then s.abort.reply i j .cancelled
  else
    match s.target.respond request.url.path.text with
    | (.abort, target) => { s with target }.abort.reply i j .cancelled
    | (.answer latency a, target) => { s with target }.answer setting i j latency a

/-- One step of a virtual user whose request is on its way. -/
def stepFlight (setting : Setting) (s : State) (i j : Nat) : State :=
  let t := ThreadId.user i j
  match s.flights.lookup t with
  | none => s.rest
  | some .silent => if s.aborted then s.reply i j .cancelled else s.rest
  | some (.underway p a) =>
    match p.step s.now s.aborted with
    | .goesOn p => s.setFlight t (.underway p a)
    | .sleeps d p => (s.setFlight t (.underway p a)).sleep t d
    | .ends true => s.settle setting i j a
    | .ends false => s.reply i j .cancelled
    | .overflows => s.crashUser i j

/-! ## Threads -/

/-- What a virtual user sees of the run. -/
def view (s : State) (c : Controller) (retired : Bool) : User.View :=
  { now := s.now
    aborted := s.aborted
    retired
    granted := c.grants }

/-- What a step of a virtual user does to the run. -/
def applyUser (setting : Setting) (s : State) (i j : Nat) (scenario : String) :
    User.Effect → State
  | .nothing => s
  | .claims => s.modifyController i (·.claim)
  | .sleeps d => s.sleep (.user i j) d
  | .sends request => s.send setting i j scenario request
  | .records sample => { s with recorder := s.recorder.record sample }

/-- One step of a virtual user, or of its thread on the way out. -/
def stepUser (setting : Setting) (s : State) (i j : Nat) (c : Controller) (t : Thread) : State :=
  let u := t.user
  if t.exit = .exited then s.rest
  else if u.isOver then s.modifyCrew i (·.leave j)
  else if s.isFirstReading (.user i j) u.readsClock then s.awaitTurn (.user i j)
  else
    match u.phase with
    | .waiting _ _ _ => s.stepFlight setting i j
    | _ =>
      let (u, effect) := u.step c.post s.clock.waiting (s.view c t.retired)
      (s.modifyUser i j fun _ => u).applyUser setting i j c.post.scenario.name effect

/-- Notes how many users a scenario has, unless the last note about it says the same. -/
def noteTick (s : State) (i : Nat) (g : Gauge) : State :=
  let tick : Tick := { time := s.now, scenario := i, active := g.active, running := g.running }
  let same := (s.ticks.find? (·.scenario == i)).any fun last =>
    last.active == g.active && last.running == g.running
  if same ∨ ¬s.clock.hasTurns then s else { s with ticks := tick :: s.ticks }

/-- What a step of a controller does to the run. -/
def applyController (s : State) (i : Nat) (c : Controller) : Controller.Effect → State
  | .nothing | .aims _ | .joins _ | .breaks _ _ => s
  | .sleeps d => (s.noteTick i c.crew.gauge).sleep (.scenario i) d
  | .spawns =>
    let t := ThreadId.user i (c.crew.nextIndex - 1)
    { s with fresh := t :: s.fresh, running := t :: s.running }

/-- One step of a controller. -/
def stepController (s : State) (i : Nat) (c : Controller) : State :=
  if c.isOver ∨ c.isWaiting then s.rest
  else if s.isFirstReading (.scenario i) c.readsClock then s.awaitTurn (.scenario i)
  else
    let (c, effect) := c.step s.clock.waiting s.now s.aborted
    (s.modifyController i fun _ => c).applyController i c effect

/-- When the next checkpoint is due. -/
def nextCheckpoint (interval : Span) (s : State) : Span :=
  (Span.ofNanos? ((s.checkpoints + 1) * interval.nanos)).getD s.now

/-- What the monitor shares with the rest of the run. -/
def vigil (s : State) : Vigil :=
  { monitor := s.monitor, recorder := s.recorder, aborted := s.aborted }

/-- The run after something that the monitor has done. -/
def setVigil (s : State) (v : Vigil) : State :=
  { s with monitor := v.monitor, aborted := v.aborted }

/-- One step of the monitor.  It waits for a checkpoint when it has looked at the abort flag. -/
def stepMonitor (setting : Setting) (rules : List Rule) (s : State) : State :=
  let next := s.setVigil (s.vigil.step rules s.now)
  match s.monitor, setting.interval with
  | .waiting, some _ => { s with monitor := s.monitor.wake }
  | .checking, some interval =>
    if next.monitor.isOver then next.rest else next.sleepUntil .monitor (s.nextCheckpoint interval)
  | .timing, some _ => { next with checkpoints := s.checkpoints + 1 }
  | .judging _ _ _, some _ | .aborting _, some _ =>
    if next.monitor.isOver then next.rest else next
  | _, _ => s.rest

/-! ## Turns -/

/-- A thread that waits for an answer although the run is aborted. -/
def cancelled? (s : State) : Option ThreadId :=
  if s.aborted then (s.flights.find? fun f => f.2 matches .silent).map (·.1) else none

/-- Whether a controller waits for a user whose thread has exited. -/
def mayJoin (c : Controller) : Bool :=
  match c.phase with
  | .joining _ _ => !c.isWaiting
  | _ => false

/-- The scenario of a controller that may join a user. -/
def joiner? (s : State) : Option ThreadId := (s.controllers.findIdx? mayJoin).map .scenario

/-- The sleeper that goes on first. -/
def firstSleeper? (s : State) : Option Sleeper :=
  match s.sleepers with
  | [] => none
  | a :: rest => some (rest.foldl (fun first b => if b.before first then b else first) a)

/-- A sleeper goes on: the clock shows its wake time. -/
def wake (s : State) (a : Sleeper) : State :=
  let clock := match s.clock with
    | .turns _ => .turns a.wake
    | .manual clock => .manual clock
  { s with
    clock
    sleepers := s.sleepers.filter (·.thread != a.thread)
    running := [a.thread] }

/-- Whether the run has to be aborted because the first sleeper does not wake in time. -/
def isStalled (setting : Setting) (s : State) (first : Sleeper) : Bool :=
  !s.aborted && setting.limit.any fun limit => limit < first.wake

/-- Whether an error of the program has ended a controller or a virtual user. -/
def isBroken (s : State) : Bool :=
  s.controllers.any fun c =>
    c.phase matches .crashed || c.crew.threads.any fun t => t.user.phase matches .crashed

/-- An error of the program ends a thread. -/
def crash (s : State) : ThreadId → State
  | .scenario i => s.modifyController i fun c => { c with phase := .crashed }
  | .user i j => s.crashUser i j
  | .monitor => { s with monitor := .ended none, lost := true }

/-- A sleeper is ended by an error of the program when its turn comes. -/
def breakOff (s : State) (a : Sleeper) : State :=
  { s with
    sleepers := s.sleepers.filter (·.thread != a.thread)
    running := [a.thread] }.crash a.thread

/-- Chooses the thread that goes on.  There is none if the run is over, or if all wait in vain. -/
def choose (setting : Setting) (s : State) : Option State :=
  -- No time passes for these two.
  match s.cancelled?.or s.joiner? with
  | some t => some { s with running := [t] }
  | none =>
    if s.controllers.all (·.isOver) then none
    else
      match s.firstSleeper? with
      | some a =>
        if setting.fragile ∧ s.isBroken then some (s.breakOff a)
        else if s.isStalled setting a then some s.abort
        else some (s.wake a)
      | none => if s.aborted then none else some s.abort

/-- One step of a rehearsal, unless it is over. -/
def step (setting : Setting) (rules : List Rule) (s : State) : Option State :=
  match s.running with
  | [] => s.choose setting
  | .monitor :: _ => some (s.stepMonitor setting rules)
  | .scenario i :: _ => some <|
    match s.controllers[i]? with
    | none => s.rest
    | some c => s.stepController i c
  | .user i j :: _ => some <|
    match s.controllers[i]? with
    | none => s.rest
    | some c =>
      match c.crew.threads[j]? with
      | none => s.rest
      | some t => s.stepUser setting i j c t

/-- Goes on until the rehearsal is over, for at most `steps` steps; also says whether it is over. -/
def run (setting : Setting) (rules : List Rule) : Nat → State → State × Bool
  | 0, s => (s, false)
  | steps + 1, s =>
    match s.step setting rules with
    | none => (s, true)
    | some s => run setting rules steps s

end State

end LoadReplay.Rehearsal
