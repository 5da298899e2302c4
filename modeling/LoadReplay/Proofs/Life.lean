import LoadReplay.Proofs.Iteration
import LoadReplay.Run.User

/-!
# The life of a virtual user

A virtual user makes steps, gets replies to its requests, and may be ended by an error.  What it
sees of the run at each of its steps may be anything.  So a list of `User.Happening`s stands for
everything that a run can do to one user, and what holds after every such list holds of the users of
every scenario, whatever the other users, the clock and the target do.

`Life` is a virtual user together with what it has asked for, the replies that it got and the
samples that it recorded.  `User.Acts` says what it can do in a step, with one rule for each thing;
the proofs go through the rules and do not look at `User.step`.
-/

namespace LoadReplay

namespace User

/-! ## What a virtual user can do -/

/-- What comes of one step of a virtual user. -/
inductive Acts (post : Post) (w : Waiting) (v : View) (u : User) : User → Effect → Prop where
  | retires (h : u.phase = .retiring) (hv : v.retired = true) :
    Acts post w v u { u with phase := .ended false } .nothing
  | stays (h : u.phase = .retiring) (hv : v.retired = false) :
    Acts post w v u { u with phase := .checking } .nothing
  /-- Sees between two iterations that the run is aborted. -/
  | stops (h : u.phase = .checking) (hv : v.aborted = true) :
    Acts post w v u { u with phase := .ended true } .nothing
  | passes (h : u.phase = .checking) (hv : v.aborted = false) :
    Acts post w v u { u with phase := .claiming } .nothing
  | claims (h : u.phase = .claiming) (hv : v.granted = true) :
    Acts post w v u
      { u with
        generator := (post.iteration u.generator).2
        phase := .moving (post.iteration u.generator).1 } .claims
  /-- There is no iteration left for it. -/
  | leaves (h : u.phase = .claiming) (hv : v.granted = false) :
    Acts post w v u { u with phase := .ended false } .nothing
  | completes (h : u.phase = .moving []) :
    Acts post w v u { u with iterations := u.iterations + 1, phase := .retiring } .nothing
  | pauses (d : Span) (moves : List Move) (h : u.phase = .moving (.pause d :: moves)) :
    Acts post w v u { u with phase := .pausing (.startAny w d) moves } .nothing
  | turns (request : PreparedRequest) (moves : List Move)
    (h : u.phase = .moving (.send request :: moves)) :
    Acts post w v u { u with phase := .sending request moves } .nothing
  /-- Goes on with a pause. -/
  | waits (p p' : Pause) (moves : List Move) (e : Effect) (h : u.phase = .pausing p moves)
    (he : p.step v.now v.aborted = .goesOn p' ∧ e = .nothing ∨
      ∃ d, p.step v.now v.aborted = .sleeps d p' ∧ e = .sleeps d) :
    Acts post w v u { u with phase := .pausing p' moves } e
  | wakes (p : Pause) (moves : List Move) (h : u.phase = .pausing p moves)
    (hp : p.step v.now v.aborted = .ends true) :
    Acts post w v u { u with phase := .moving moves } .nothing
  /-- A pause is cut short. -/
  | cuts (p : Pause) (moves : List Move) (h : u.phase = .pausing p moves)
    (hp : p.step v.now v.aborted = .ends false) :
    Acts post w v u { u with phase := .ended true } .nothing
  /-- The end of a pause lies beyond all spans. -/
  | overflows (p : Pause) (moves : List Move) (h : u.phase = .pausing p moves)
    (hp : p.step v.now v.aborted = .overflows) :
    Acts post w v u { u with phase := .crashed } .nothing
  | sends (request : PreparedRequest) (moves : List Move) (h : u.phase = .sending request moves) :
    Acts post w v u { u with phase := .waiting request v.now moves } (.sends request)
  | records (request : PreparedRequest) (sentAt : Span) (status : Option Nat) (moves : List Move)
    (h : u.phase = .recording request sentAt status moves) :
    Acts post w v u { u with phase := .moving moves }
      (.records (post.sample request sentAt (v.now - sentAt) status))
  /-- Does nothing while a request is on its way. -/
  | awaits (request : PreparedRequest) (sentAt : Span) (moves : List Move)
    (h : u.phase = .waiting request sentAt moves) : Acts post w v u u .nothing
  | rests (h : u.isOver = true) : Acts post w v u u .nothing

variable (post : Post) (w : Waiting) (v : View)

/-- Whatever a pause does next, its user follows one of the rules. -/
theorem pauseNext_acts (u : User) (p : Pause) (moves : List Move) (h : u.phase = .pausing p moves) :
    u.Acts post w v { u with phase := (pauseNext moves (p.step v.now v.aborted)).1 }
      (pauseNext moves (p.step v.now v.aborted)).2 := by
  match hn : p.step v.now v.aborted with
  | .goesOn p' => exact .waits p p' moves _ h (.inl ⟨hn, rfl⟩)
  | .sleeps d p' => exact .waits p p' moves _ h (.inr ⟨d, hn, rfl⟩)
  | .ends true => exact .wakes p moves h hn
  | .ends false => exact .cuts p moves h hn
  | .overflows => exact .overflows p moves h hn

/-- A virtual user follows the rules. -/
theorem acts (u : User) : u.Acts post w v (u.step post w v).1 (u.step post w v).2 := by
  rw [step]
  match h : u.phase with
  | .retiring =>
    cases hv : v.retired with
    | true => exact .retires h hv
    | false => exact .stays h hv
  | .checking =>
    cases hv : v.aborted with
    | true => exact .stops h hv
    | false => exact .passes h hv
  | .claiming =>
    cases hv : v.granted with
    | true => exact .claims h hv
    | false => exact .leaves h hv
  | .moving [] => exact .completes h
  | .moving (.pause d :: moves) => exact .pauses d moves h
  | .moving (.send request :: moves) => exact .turns request moves h
  | .pausing p moves => exact u.pauseNext_acts post w v p moves h
  | .sending request moves => exact .sends request moves h
  | .waiting request sentAt moves => exact .awaits request sentAt moves h
  | .recording request sentAt status moves => exact .records request sentAt status moves h
  | .ended _ | .crashed => exact .rests (by simp [isOver, h])

/-! ## What a virtual user asks for -/

/-- What a virtual user asks for with its next step: a pause of the clock, or the dispatch of a
request.  Nothing is asked of the clock for a pause of no length. -/
def asks? (u : User) : Option Move :=
  match u.phase with
  | .moving (.pause d :: _) => if d.isZero then none else some (.pause d)
  | .sending request _ => some (.send request)
  | _ => none

/-- The request of a virtual user that is on its way. -/
def awaited? (u : User) : Option PreparedRequest :=
  match u.phase with
  | .waiting request _ _ => some request
  | _ => none

/-- The sample that is recorded in a step. -/
def Effect.sample? : Effect → Option Sample
  | .records sample => some sample
  | .nothing | .claims | .sleeps _ | .sends _ => none

/-- The request that is sent in a step. -/
def Effect.request? : Effect → Option PreparedRequest
  | .sends request => some request
  | .nothing | .claims | .sleeps _ | .records _ => none

/-- What can happen to a virtual user. -/
inductive Happening where
  /-- It makes a step, and this is what it sees of the run. -/
  | step (v : View)
  /-- It gets the reply to its request. -/
  | reply (r : Reply)
  /-- It is ended by an error. -/
  | crash

/-- Whether something can happen to a virtual user as long as the run is not aborted and there is no
error of the program. -/
def Happening.IsCalm : Happening → Prop
  | .step v => v.aborted = false
  | .reply r => r ≠ .cancelled
  | .crash => False

end User

/-- A virtual user and what it has done so far. -/
structure Life where
  user : User
  /-- The pauses that it asked the clock for, and the requests that it sent. -/
  asked : List Move
  /-- The replies that it got, each with its request. -/
  replies : List (PreparedRequest × Reply)
  samples : List Sample

namespace Life

/-- The life of a virtual user that has done nothing yet. -/
def begin (index : Nat) (generator : Random.Generator) : Life :=
  { user := { index, generator, iterations := 0, phase := .retiring }
    asked := []
    replies := []
    samples := [] }

/-- The requests that the virtual user sent. -/
def requests (l : Life) : List PreparedRequest := sent l.asked

variable (post : Post) (w : Waiting)

/-- The life after something has happened. -/
def next (l : Life) : User.Happening → Life
  | .step v =>
    let (u, effect) := l.user.step post w v
    { l with
      user := u
      asked := l.asked ++ l.user.asks?.toList
      samples := l.samples ++ effect.sample?.toList }
  | .reply r =>
    { l with
      user := l.user.receive r
      replies := l.replies ++ (l.user.awaited?.map fun request => (request, r)).toList }
  | .crash => if l.user.isOver then l else { l with user := l.user.crash }

theorem next_step (l : Life) (v : User.View) :
    l.next post w (.step v) =
      { l with
        user := (l.user.step post w v).1
        asked := l.asked ++ l.user.asks?.toList
        samples := l.samples ++ (l.user.step post w v).2.sample?.toList } :=
  rfl

/-- The life after some things have happened. -/
def run (l : Life) (happenings : List User.Happening) : Life := happenings.foldl (next post w) l

/-- A life goes on from where it is. -/
theorem run_append (l : Life) (a b : List User.Happening) :
    l.run post w (a ++ b) = (l.run post w a).run post w b :=
  List.foldl_append

/-- What holds at the beginning and is kept by whatever may happen holds all the time. -/
theorem run_induction {p : Life → Prop} {q : User.Happening → Prop} {l : Life} (hl : p l)
    (hnext : ∀ l h, p l → q h → p (l.next post w h)) (happenings : List User.Happening)
    (hq : ∀ h ∈ happenings, q h) : p (l.run post w happenings) := by
  induction happenings generalizing l with
  | nil => exact hl
  | cons h rest ih =>
    have hstep := hnext l h hl (hq h List.mem_cons_self)
    exact ih hstep fun h' hh' => hq h' (List.mem_cons_of_mem _ hh')

end Life

end LoadReplay
