import LoadReplay.Abort.Signal

/-!
# Waiting for the abort signal

The abort signal of a run with everyone who sets it off and everyone who waits for it.  Their steps
come in any order: a list of choices is one run.  A listener can be cloned, and only one caller at a
time waits on each listener, clones counted separately.

To abort the run takes two steps, `Signal.latch` and `Signal.send`, and a wait goes on by
`Wait.step?`, one access to the flag, the lock or the receiver at a time.
-/

namespace LoadReplay.Abort

/-- Where someone who uses the signal is. -/
inductive Call where
  /-- Aborts the run: about to set the flag. -/
  | latching
  /-- Aborts the run: about to send the message. -/
  | sending
  /-- Has aborted the run. -/
  | done
  /-- Waits, or has waited, on the listener with a number. -/
  | waiting (id : Nat) (listener : Listener) (stage : Wait)
  deriving Repr, DecidableEq

/-- The abort signal with everyone who uses it. -/
structure Watch where
  signal : Signal
  /-- All listeners, numbered in the order in which they were made; a clone has the receiver of the
  original. -/
  listeners : List Listener
  /-- All calls that were made. -/
  calls : List Call
  /-- The listeners whose callers found the flag not set, with their numbers. -/
  passed : List (Nat × Listener)

/-- Whether a call waits on the listener with a number and is not over. -/
def Call.isOn (id : Nat) : Call → Bool
  | .waiting id' _ stage => id' = id && stage ≠ .over
  | .latching | .sending | .done => false

namespace Watch

/-- What happens next. -/
inductive Choice where
  /-- Someone begins to abort the run. -/
  | abort
  /-- A listener is made. -/
  | listen
  /-- A listener is cloned. -/
  | clone (id : Nat)
  /-- Someone begins to wait on a listener. -/
  | wait (id : Nat)
  /-- A call makes a step. -/
  | step (k : Nat)
  deriving Repr, DecidableEq

/-- A signal that nobody has used. -/
def start : Watch := { signal := .quiet, listeners := [], calls := [], passed := [] }

/-- Whether nobody waits on the listener with a number. -/
def isFree (v : Watch) (id : Nat) : Bool := v.calls.all fun c => !c.isOn id

/-- Begins a call. -/
def call (v : Watch) (c : Call) : Watch := { v with calls := v.calls ++ [c] }

/-- One step of a call, unless it is over or something else has to happen before. -/
def step? (v : Watch) (k : Nat) : Option Watch :=
  match v.calls[k]? with
  | some .latching => some { v with signal := v.signal.latch, calls := v.calls.set k .sending }
  | some .sending => some { v with signal := v.signal.send, calls := v.calls.set k .done }
  | some (.waiting id l stage) =>
    (stage.step? v.signal l).map fun (signal, stage) =>
      { v with
        signal
        calls := v.calls.set k (.waiting id l stage)
        passed := if stage = .locking then v.passed ++ [(id, l)] else v.passed }
  | some .done | none => none

/-- What happens when it is to happen.  Nothing does if it cannot: a listener that someone waits on
is neither cloned nor waited on by someone else. -/
def next (v : Watch) : Choice → Watch
  | .abort => v.call .latching
  | .listen =>
    let (l, signal) := v.signal.subscribe
    { v with signal, listeners := v.listeners ++ [l] }
  | .clone id =>
    match v.listeners[id]? with
    | none => v
    | some l => if v.isFree id then { v with listeners := v.listeners ++ [l] } else v
  | .wait id =>
    match v.listeners[id]? with
    | none => v
    | some l => if v.isFree id then v.call (.waiting id l .checking) else v
  | .step k => (v.step? k).getD v

/-- One run, from some moment on. -/
def run (v : Watch) (choices : List Choice) : Watch := choices.foldl next v

/-- Whether no call can make a step. -/
def isStuck (v : Watch) : Bool := (List.range v.calls.length).all fun k => (v.step? k).isNone

/-- How many calls have aborted the run. -/
def completed (v : Watch) : Nat := v.calls.countP (· = .done)

end Watch

end LoadReplay.Abort
