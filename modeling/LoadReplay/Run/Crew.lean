import LoadReplay.Run.Gauge
import LoadReplay.Run.User

/-!
# Crews

The virtual users of one scenario as its controller knows them: those that are live, oldest first,
those that are told to retire and still finish an iteration, and the reports of those that are gone.

A user is joined when its thread has exited.  If the thread was ended by an error, joining fails,
and the users that were to be joined after it are given up.

What takes several steps is a `Crew.Task`: to start a user, to tell it to retire, to join all users
whose threads have exited.  `Crew.work` and `Crew.leave` are single steps, of the controller and of
the thread of a user, that no other thread can divide.
-/

namespace LoadReplay

/-- Where a thread is on its way out. -/
inductive Exit where
  /-- Its user goes on, or has only just ended. -/
  | staying
  /-- About to count its user as no longer active. -/
  | dropsActive
  /-- About to count its user as no longer running. -/
  | dropsRunning
  /-- About to exit. -/
  | closing
  | exited
  deriving Repr, DecidableEq

/-- The thread of a virtual user. -/
structure Thread where
  user : User
  /-- Whether the user is told to retire. -/
  retired : Bool
  exit : Exit

/-- The thread after one step on its way out.  Whoever sets the flag that a user is to retire counts
it as no longer active, so that this is done once. -/
def Thread.leave (t : Thread) : Thread :=
  match t.exit with
  | .staying =>
    { t with retired := true, exit := if t.retired then .dropsRunning else .dropsActive }
  | .dropsActive => { t with exit := .dropsRunning }
  | .dropsRunning => { t with exit := .closing }
  | .closing | .exited => { t with exit := .exited }

/-- What a thread that stands there counts with its next step. -/
def Exit.count (g : Gauge) : Exit → Gauge
  | .dropsActive => g.dropActive
  | .dropsRunning => g.dropRunning
  | .staying | .closing | .exited => g

/-- The users that a controller has not joined, by whether they are told to retire. -/
inductive Roll where
  | live
  | draining
  deriving Repr, DecidableEq

/-- What a controller is in the middle of. -/
inductive Crew.Task where
  | none
  /-- Starting a user: about to count it as active. -/
  | addsActive (u : User)
  /-- About to count it as running. -/
  | addsRunning (u : User)
  /-- About to raise the peak to the number of users that were running with it. -/
  | raisesPeak (u : User) (running : Nat)
  /-- About to count it as started. -/
  | addsSpawned (u : User)
  /-- About to start its thread. -/
  | launches (u : User)
  /-- The thread of a user could not be started: about to count it as no longer active. -/
  | dropsNewActive
  /-- About to count it as no longer running. -/
  | dropsNewRunning
  /-- Has told a user to retire: about to count it as no longer active. -/
  | dropsActive
  /-- Looking which threads have exited, one after another. -/
  | inspects (roll : Roll) (unseen gone left : List Nat)
  /-- Joining users whose threads have exited. -/
  | joins (roll : Roll) (gone : List Nat)

/-- The virtual users of a scenario. -/
structure Crew where
  /-- Every thread that was ever started, by the index of its user. -/
  threads : List Thread
  /-- The live users, oldest first. -/
  live : List Nat
  /-- The users that are told to retire and are not joined yet. -/
  draining : List Nat
  /-- What the joined users did. -/
  reports : List UserReport
  gauge : Gauge
  task : Crew.Task

namespace Crew

/-- No virtual users. -/
def empty : Crew :=
  { threads := [], live := [], draining := [], reports := [], gauge := .zero, task := .none }

/-- The index of the next user to be started. -/
def nextIndex (c : Crew) : Nat := c.threads.length

/-- Whether the controller is in the middle of nothing. -/
def isIdle (c : Crew) : Bool := c.task matches .none

/-- Changes the thread of a user. -/
def modify (c : Crew) (i : Nat) (f : Thread → Thread) : Crew :=
  { c with threads := c.threads.modify i f }

/-- Whether a user is told to retire. -/
def isRetired (c : Crew) (i : Nat) : Bool := c.threads[i]?.any (·.retired)

/-- Whether the thread of a user has exited. -/
def isExited (c : Crew) (i : Nat) : Bool := c.threads[i]?.any (·.exit == .exited)

/-- One step of a thread on its way out. -/
def leave (c : Crew) (i : Nat) : Crew :=
  match c.threads[i]? with
  | none => c
  | some t => { c.modify i (·.leave) with gauge := t.exit.count c.gauge }

/-! ## What a controller begins -/

/-- Begins to start a user. -/
def enrol (c : Crew) (u : User) : Crew := { c with task := .addsActive u }

/-- Tells a user to retire. -/
def tell (c : Crew) (i : Nat) : Crew :=
  { c.modify i fun t => { t with retired := true } with
    task := if c.isRetired i then .none else .dropsActive }

/-- Tells the newest live user to retire. -/
def retireNewest (c : Crew) : Crew :=
  match c.live.getLast? with
  | none => c
  | some i => { c with live := c.live.dropLast, draining := c.draining ++ [i] }.tell i

/-- Begins to join all users whose threads have exited. -/
def reap (c : Crew) : Crew := { c with task := .inspects .live c.live [] [] }

/-- What is to be done to have a number of live users. -/
inductive Adjustment where
  /-- The newest user has to retire. -/
  | retire
  | spawn
  /-- Nothing, or nothing yet: users that have been told to retire are still running. -/
  | nothing
  deriving Repr, DecidableEq

/-- What is to be done next to have `target` live users.  Users are only started while fewer than
`target` threads run. -/
def adjustment (c : Crew) (target : Nat) : Adjustment :=
  if target < c.live.length then .retire
  else if c.live.length < target ∧ c.gauge.running < target then .spawn
  else .nothing

/-- Joins a user whose thread has exited.  There is no crew if an error ended it. -/
def join? (c : Crew) (i : Nat) : Option Crew :=
  ((c.threads[i]?).bind fun t => t.user.report?).map fun r =>
    { c with reports := c.reports ++ [r] }

/-- The crew without the users that are not joined yet, and these users in the order in which they
are joined. -/
def release (c : Crew) : Crew × List Nat :=
  ({ c with live := [], draining := [] }, c.live ++ c.draining)

/-! ## What a controller is in the middle of -/

/-- The users of a roll replaced. -/
def setRoll (c : Crew) : Roll → List Nat → Crew
  | .live, users => { c with live := users }
  | .draining, users => { c with draining := users }

/-- Starts the thread of a user. -/
def launch (c : Crew) (u : User) : Crew :=
  { c with
    threads := c.threads ++ [{ user := u, retired := false, exit := .staying }]
    live := c.live ++ [c.nextIndex]
    task := .none }

/-- The thread of a user that is about to be started cannot be started. -/
def refuse (c : Crew) : Crew :=
  match c.task with
  | .launches _ => { c with task := .dropsNewActive }
  | _ => c

/-- What comes of a step. -/
inductive Outcome where
  | nothing
  /-- The last one of the users has got its thread. -/
  | started
  | joined (i : Nat)
  /-- Joining a user has failed, and the rest of the users are given up. -/
  | broken (i : Nat) (rest : List Nat)
  /-- A user has not got a thread. -/
  | refused

/-- One step of what the controller is in the middle of. -/
def work (c : Crew) : Crew × Outcome :=
  match c.task with
  | .none => (c, .nothing)
  | .addsActive u => ({ c with gauge := c.gauge.addActive, task := .addsRunning u }, .nothing)
  | .addsRunning u =>
    let gauge := c.gauge.addRunning
    ({ c with gauge, task := .raisesPeak u gauge.running }, .nothing)
  | .raisesPeak u running =>
    ({ c with gauge := c.gauge.raisePeak running, task := .addsSpawned u }, .nothing)
  | .addsSpawned u => ({ c with gauge := c.gauge.addSpawned, task := .launches u }, .nothing)
  | .launches u => (c.launch u, .started)
  | .dropsNewActive => ({ c with gauge := c.gauge.dropActive, task := .dropsNewRunning }, .nothing)
  | .dropsNewRunning => ({ c with gauge := c.gauge.dropRunning, task := .none }, .refused)
  | .dropsActive => ({ c with gauge := c.gauge.dropActive, task := .none }, .nothing)
  | .inspects roll (i :: unseen) gone left =>
    if c.isExited i then ({ c with task := .inspects roll unseen (gone ++ [i]) left }, .nothing)
    else ({ c with task := .inspects roll unseen gone (left ++ [i]) }, .nothing)
  | .inspects roll [] gone left => ({ c.setRoll roll left with task := .joins roll gone }, .nothing)
  | .joins roll (i :: gone) =>
    match c.join? i with
    | some c => ({ c with task := .joins roll gone }, .joined i)
    | none => ({ c with task := .none }, .broken i gone)
  | .joins .live [] => ({ c with task := .inspects .draining c.draining [] [] }, .nothing)
  | .joins .draining [] => ({ c with task := .none }, .nothing)

/-- The iterations of all joined users, as a 64-bit count. -/
def iterations (c : Crew) : Nat :=
  c.reports.foldr (fun r n => r.iterations + n) 0 % Nat.pow 2 64

/-- Whether an abort of the run stopped a joined user. -/
def interrupted (c : Crew) : Bool := c.reports.any (·.interrupted)

end Crew

end LoadReplay
