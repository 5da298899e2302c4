import LoadReplay.Metric.Sample
import LoadReplay.Random.Draw
import LoadReplay.Run.Pause
import LoadReplay.Scenario.Basic
import LoadReplay.Workload.Catalog

/-!
# Virtual users

A virtual user replays the groups of its scenario again and again.  What one iteration does, which
requests in which order and which pauses between them, is drawn when it begins and depends on
nothing but the generator of the user.

A `Post` is what a user is started with and never changes.  The phases of a user are the places of
its thread's code between two accesses to what it shares with others: the loop over iterations looks
at both flags and claims from the budget, an iteration goes through its moves, a request is sent,
answered and recorded, and a pause is `Pause.step`.

`User.step` is one step that no other thread can divide: a look at a flag, a claim, a reading of the
clock.  Around these steps anything may happen in the run.  Rehearsals, scenes and `Solo` all run
this one definition.
-/

namespace LoadReplay

/-- What a virtual user does within an iteration. -/
inductive Move where
  | pause (length : Span)
  | send (request : PreparedRequest)

/-- What the virtual users of a scenario have in common. -/
structure Post where
  scenario : Scenario
  /-- The groups that it replays. -/
  groups : List PreparedGroup

/-! ## Iterations -/

/-- The requests of a group in the order in which an iteration sends them. -/
def PreparedGroup.order (g : PreparedGroup) (r : Random.Generator) :
    List PreparedRequest × Random.Generator :=
  if g.shuffle then Random.shuffled g.requests r else (g.requests, r)

/-- The moves for some requests; there is a pause before each of them, but not before the first one
of an iteration. -/
def Post.requestMoves (p : Post) : Bool → List PreparedRequest → Random.Generator →
    List Move × Random.Generator
  | _, [], r => ([], r)
  | first, request :: rest, r =>
    let (pacing, r) :=
      if first then ([], r)
      else
        let (d, r) := Random.spanBetween p.scenario.minSleep p.scenario.maxSleep r
        ([Move.pause d], r)
    let (moves, r) := p.requestMoves false rest r
    (pacing ++ .send request :: moves, r)

/-- The moves for some groups; `first` says whether nothing was sent before. -/
def Post.groupMoves (p : Post) : Bool → List PreparedGroup → Random.Generator →
    List Move × Random.Generator
  | _, [], r => ([], r)
  | first, g :: rest, r =>
    let (order, r) := g.order r
    let (moves, r) := p.requestMoves first order r
    let (more, r) := p.groupMoves (first && order.isEmpty) rest r
    (moves ++ more, r)

/-- The moves of an iteration: a random pause, the requests of all groups, and the pause at the end.
-/
def Post.iteration (p : Post) (r : Random.Generator) : List Move × Random.Generator :=
  let (jitter, r) := Random.spanUpTo p.scenario.startJitter r
  let (moves, r) := p.groupMoves true p.groups r
  (.pause jitter :: moves ++ [.pause p.scenario.iterationPause], r)

/-! ## Samples -/

/-- What came of a request. -/
inductive Reply where
  | status (code : Nat)
  /-- There was no response. -/
  | failed
  /-- The run was aborted before there was one. -/
  | cancelled
  deriving Repr, DecidableEq

/-- The sample of an answered request. -/
def Post.sample (p : Post) (request : PreparedRequest) (sentAt latency : Span)
    (status : Option Nat) : Sample :=
  { tags := p.scenario.sampleTags.merge request.tags
    sentAt, latency, status
    outcome := if status.any p.scenario.expects then .success else .failure }

/-! ## Steps -/

namespace User

/-- Where a virtual user is. -/
inductive Phase where
  /-- About to look whether it is told to retire. -/
  | retiring
  /-- About to look whether the run is aborted. -/
  | checking
  /-- About to claim an iteration. -/
  | claiming
  /-- About to make the first of some moves. -/
  | moving (moves : List Move)
  | pausing (p : Pause) (moves : List Move)
  /-- About to read the clock and to send a request. -/
  | sending (request : PreparedRequest) (moves : List Move)
  /-- A request is on its way. -/
  | waiting (request : PreparedRequest) (sentAt : Span) (moves : List Move)
  /-- About to read the clock and to record a request. -/
  | recording (request : PreparedRequest) (sentAt : Span) (status : Option Nat)
      (moves : List Move)
  | ended (interrupted : Bool)
  /-- Ended by an error of the program. -/
  | crashed

/-- What a virtual user sees of the run. -/
structure View where
  now : Span
  aborted : Bool
  /-- Whether it is told to retire. -/
  retired : Bool
  /-- Whether it may begin one more iteration. -/
  granted : Bool

/-- What a step does to the run. -/
inductive Effect where
  | nothing
  /-- Takes an iteration. -/
  | claims
  | sleeps (length : Span)
  | sends (request : PreparedRequest)
  | records (sample : Sample)

end User

/-- A virtual user. -/
structure User where
  index : Nat
  generator : Random.Generator
  /-- Iterations completed so far. -/
  iterations : Nat
  phase : User.Phase

/-- What a virtual user did. -/
structure UserReport where
  iterations : Nat
  /-- Whether an abort of the run stopped it. -/
  interrupted : Bool
  deriving Repr, DecidableEq

namespace User

/-- The name of a virtual user. -/
def name (scenario : String) (index : Nat) : String := s!"vu-{scenario}-{index}"

/-- A virtual user that has done nothing yet. -/
def new (index : Nat) (generator : Random.Generator) : User :=
  { index, generator, iterations := 0, phase := .retiring }

/-- Where a virtual user goes when a pause has been stepped, and how long it sleeps. -/
def pauseNext (moves : List Move) : Pause.Next → Phase × Effect
  | .goesOn p => (.pausing p moves, .nothing)
  | .sleeps d p => (.pausing p moves, .sleeps d)
  | .ends true => (.moving moves, .nothing)
  | .ends false => (.ended true, .nothing)
  | .overflows => (.crashed, .nothing)

/-- One step of a virtual user.  It does not move while a request is on its way and when it has
ended. -/
def step (post : Post) (w : Waiting) (v : View) (u : User) : User × Effect :=
  match u.phase with
  | .retiring => ({ u with phase := if v.retired then .ended false else .checking }, .nothing)
  | .checking => ({ u with phase := if v.aborted then .ended true else .claiming }, .nothing)
  | .claiming =>
    if v.granted then
      let (moves, generator) := post.iteration u.generator
      ({ u with generator, phase := .moving moves }, .claims)
    else ({ u with phase := .ended false }, .nothing)
  | .moving [] => ({ u with iterations := u.iterations + 1, phase := .retiring }, .nothing)
  | .moving (.pause d :: moves) => ({ u with phase := .pausing (.startAny w d) moves }, .nothing)
  | .moving (.send request :: moves) => ({ u with phase := .sending request moves }, .nothing)
  | .pausing p moves =>
    let (phase, effect) := pauseNext moves (p.step v.now v.aborted)
    ({ u with phase }, effect)
  | .sending request moves =>
    ({ u with phase := .waiting request v.now moves }, .sends request)
  | .waiting _ _ _ => (u, .nothing)
  | .recording request sentAt status moves =>
    ({ u with phase := .moving moves },
      .records (post.sample request sentAt (v.now - sentAt) status))
  | .ended _ => (u, .nothing)
  | .crashed => (u, .nothing)

/-- A virtual user gets the reply to its request. -/
def receive (u : User) (r : Reply) : User :=
  match u.phase, r with
  | .waiting request sentAt moves, .status code =>
    { u with phase := .recording request sentAt (some code) moves }
  | .waiting request sentAt moves, .failed =>
    { u with phase := .recording request sentAt none moves }
  | .waiting _ _ _, .cancelled => { u with phase := .ended true }
  | _, _ => u

/-- A virtual user is ended by an error of the program. -/
def crash (u : User) : User := { u with phase := .crashed }

/-- Whether the next step reads the clock. -/
def readsClock (u : User) : Bool :=
  match u.phase with
  | .pausing p _ => p.readsClock
  | .sending _ _ | .recording _ _ _ _ => true
  | _ => false

/-- Whether a virtual user has nothing left to do. -/
def isOver (u : User) : Bool :=
  match u.phase with
  | .ended _ | .crashed => true
  | _ => false

/-- What a virtual user did, unless it was ended by an error. -/
def report? (u : User) : Option UserReport :=
  match u.phase with
  | .ended interrupted => some { iterations := u.iterations, interrupted }
  | _ => none

end User

end LoadReplay
