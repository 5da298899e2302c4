import LoadReplay.Run.Controller

/-!
# Scenes

A scenario whose controller and virtual users take their steps in any order.  What happens next is a
`Scene.Choice`: whose step it is, what the clock shows then, what comes of a request, when the run
is aborted, which user is ended by an error.  So a list of choices is one run of the scenario, and
what holds after every list of choices holds in every run, whatever the machine and the other
scenarios do.

The steps are `Controller.step`, `User.step` and `Crew.leave`, the ones that a rehearsal makes in one
particular order.  `Scene.log` remembers every step that was made.
-/

namespace LoadReplay

/-- A step that was made, with what the clock showed. -/
inductive Event where
  | controller (now : Span) (effect : Controller.Effect)
  | user (i : Nat) (now : Span) (effect : User.Effect)

/-- A scenario in the middle of a run. -/
structure Scene where
  controller : Controller
  aborted : Bool
  /-- The steps that were made, the first one first. -/
  log : List Event

namespace Scene

/-- What happens next. -/
inductive Choice where
  /-- The run is aborted. -/
  | abort
  /-- The controller makes a step. -/
  | controller (now : Span)
  /-- The thread that the controller is about to start cannot be started. -/
  | refuse
  /-- A virtual user makes a step. -/
  | user (i : Nat) (now : Span)
  /-- A virtual user gets the reply to its request. -/
  | reply (i : Nat) (reply : Reply)
  /-- A virtual user is ended by an error. -/
  | crash (i : Nat)
  /-- The thread of a virtual user that has ended makes a step on its way out. -/
  | leave (i : Nat)

variable (w : Waiting)

/-- A scenario before anything has happened.  Each user draws from a generator of its own, whatever
that is: a seed may determine them all, or nothing. -/
def start (generators : Nat → Random.Generator) (post : Post) : Scene :=
  { controller := .new w generators post, aborted := false, log := [] }

/-- The virtual users that were started, and their threads. -/
def crew (s : Scene) : Crew := s.controller.crew

/-- Changes the crew. -/
def modifyCrew (s : Scene) (f : Crew → Crew) : Scene :=
  { s with controller := { s.controller with crew := f s.crew } }

/-- Changes a virtual user. -/
def modifyUser (s : Scene) (i : Nat) (f : User → User) : Scene :=
  s.modifyCrew (·.modify i fun t => { t with user := f t.user })

/-- The virtual user of a thread, unless it has ended. -/
def user? (s : Scene) (i : Nat) : Option Thread :=
  s.crew.threads[i]?.filter fun t => !t.user.isOver

/-- The scenario after a step of its controller. -/
def stepController (s : Scene) (now : Span) : Scene :=
  let (c, effect) := s.controller.step w now s.aborted
  { s with controller := c, log := s.log ++ [.controller now effect] }

/-- What a virtual user sees of the run. -/
def view (s : Scene) (now : Span) (retired : Bool) : User.View :=
  { now, aborted := s.aborted, retired, granted := s.controller.grants }

/-- The scenario when a step of a virtual user has had its effect. -/
def apply (s : Scene) : User.Effect → Scene
  | .claims => { s with controller := s.controller.claim }
  | .nothing | .sleeps _ | .sends _ | .records _ => s

/-- The scenario after a step of a virtual user. -/
def stepUser (s : Scene) (i : Nat) (now : Span) (t : Thread) : Scene :=
  let (u, effect) := t.user.step s.controller.post w (s.view now t.retired)
  { (s.modifyUser i fun _ => u).apply effect with log := s.log ++ [.user i now effect] }

/-- What happens when it is to happen.  Nothing does if it cannot: a virtual user that has ended
makes no step.  A request may be cancelled at any time: by an abort of the run, or by the target. -/
def next (s : Scene) : Choice → Scene
  | .abort => { s with aborted := true }
  | .controller now => s.stepController w now
  | .refuse => s.modifyCrew (·.refuse)
  | .user i now =>
    match s.user? i with
    | none => s
    | some t => s.stepUser w i now t
  | .reply i reply => s.modifyUser i (·.receive reply)
  | .crash i =>
    match s.user? i with
    | none => s
    | some _ => s.modifyUser i (·.crash)
  | .leave i =>
    match s.user? i with
    | none => s.modifyCrew (·.leave i)
    | some _ => s

/-- One run, from some moment on. -/
def run (s : Scene) (choices : List Choice) : Scene := choices.foldl (next w) s

/-- What holds at the beginning and is kept by whatever happens holds all the time. -/
theorem run_induction {p : Scene → Prop} {s : Scene} (hs : p s)
    (hnext : ∀ s choice, p s → p (s.next w choice)) (choices : List Choice) :
    p (s.run w choices) := by
  induction choices generalizing s with
  | nil => exact hs
  | cons choice rest ih => exact ih (hnext s choice hs)

end Scene

end LoadReplay
