import LoadReplay.Clock.Manual
import LoadReplay.Run.Budget
import LoadReplay.Run.User

/-!
# A virtual user on its own

One virtual user with a budget of iterations, on a clock that only it moves.  Nobody tells it to
retire, nobody aborts the run, and the target answers without moving the clock, so what happens
depends on nothing but the generator of the user and the answers.

The user makes its steps by `User.step`; the clock is a `ManualClock` and the budget a `Budget`, so
the surroundings that a scene leaves open are filled in with those of the program.
-/

namespace LoadReplay

/-- A virtual user with the clock and the budget that it has for itself. -/
structure Solo where
  user : User
  clock : ManualClock
  budget : Budget
  samples : List Sample

namespace Solo

/-- A virtual user that has done nothing yet, on a clock that has not been moved. -/
def start (index : Nat) (generator : Random.Generator) (iterations : Nat) : Solo :=
  { user := .new index generator
    clock := .start
    budget := .full iterations
    samples := [] }

/-- What the virtual user sees. -/
def view (v : Solo) : User.View :=
  { now := v.clock.now, aborted := false, retired := false, granted := v.budget.claim?.isSome }

/-- What a step does to the clock, the budget and the samples. -/
def apply (v : Solo) : User.Effect → Solo
  | .nothing | .sends _ => v
  | .claims => { v with budget := v.budget.claim?.getD v.budget }
  | .sleeps length => { v with clock := v.clock.sleep length }
  | .records sample => { v with samples := v.samples ++ [sample] }

/-- The reply to a request: a status, or an error that is not the abort of the run. -/
def reply : Option Nat → Reply
  | some code => .status code
  | none => .failed

/-- One step.  Request `n` is answered with `answers n`. -/
def next (post : Post) (answers : Nat → Option Nat) (v : Solo) : Solo :=
  match v.user.phase with
  | .waiting _ _ _ => { v with user := v.user.receive (reply (answers v.samples.length)) }
  | _ =>
    let (user, effect) := v.user.step post .whole v.view
    { v with user }.apply effect

/-- A number of steps. -/
def run (post : Post) (answers : Nat → Option Nat) : Nat → Solo → Solo
  | 0, v => v
  | n + 1, v => run post answers n (v.next post answers)

end Solo

end LoadReplay
