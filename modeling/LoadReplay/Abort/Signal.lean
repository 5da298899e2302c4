/-!
# The abort signal

A run is aborted once and for all: a flag is set, and then everyone who waits is woken.  A listener
has a receiver that takes the message which is sent after the flag is set; its clones share the
receiver and take turns.  Whoever wants to wait looks at the flag first, so it cannot miss a message
that was sent before its receiver was made.
-/

namespace LoadReplay.Abort

/-- Where the messages for a listener and its clones arrive. -/
structure Receiver where
  /-- How many messages were sent to it that have not been taken. -/
  messages : Nat
  /-- Whether someone holds it, waiting for a message. -/
  held : Bool
  deriving Repr, DecidableEq

/-- The abort signal of a run. -/
structure Signal where
  /-- The flag. -/
  latched : Bool
  receivers : List Receiver
  deriving Repr, DecidableEq

/-- Someone who may wait for the signal: the place of its receiver. -/
structure Listener where
  receiver : Nat
  deriving Repr, DecidableEq

/-- How many messages a receiver keeps. -/
def capacity : Nat := 1

/-- Takes a message and lets go of the receiver.  Of older messages than it keeps only a notice is
left that there were some, which takes the place of one message. -/
def Receiver.take (r : Receiver) : Receiver := ⟨min capacity (r.messages - 1), false⟩

namespace Signal

/-- The signal of a run that is not aborted. -/
def quiet : Signal := ⟨false, []⟩

/-- Sets the flag. -/
def latch (s : Signal) : Signal := { s with latched := true }

/-- Sends the message to every receiver that there is. -/
def send (s : Signal) : Signal :=
  { s with receivers := s.receivers.map fun r => { r with messages := r.messages + 1 } }

/-- Aborts the run. -/
def shutdown (s : Signal) : Signal := s.latch.send

/-- Makes a listener with a receiver of its own. -/
def subscribe (s : Signal) : Listener × Signal :=
  (⟨s.receivers.length⟩, { s with receivers := s.receivers ++ [⟨0, false⟩] })

/-- Changes the receiver of a listener. -/
def modify (s : Signal) (l : Listener) (f : Receiver → Receiver) : Signal :=
  { s with receivers := s.receivers.modify l.receiver f }

end Signal

/-- Where someone who waits is. -/
inductive Wait where
  /-- About to look at the flag. -/
  | checking
  /-- About to get hold of the receiver. -/
  | locking
  /-- About to take a message. -/
  | receiving
  | over
  deriving Repr, DecidableEq

/-- One step of someone who waits.  There is none while another clone holds the receiver, and while
there is no message. -/
def Wait.step? (s : Signal) (l : Listener) : Wait → Option (Signal × Wait)
  | .checking => some (s, if s.latched then .over else .locking)
  | .locking =>
    if s.receivers[l.receiver]?.any (·.held) then none
    else some (s.modify l (fun r => { r with held := true }), .receiving)
  | .receiving =>
    if s.receivers[l.receiver]?.any (fun r => 0 < r.messages) then
      some (s.modify l Receiver.take, .over)
    else none
  | .over => none

/-- Goes on waiting for as long as nothing else has to happen before. -/
def Wait.go (s : Signal) (l : Listener) : Nat → Wait → Signal × Wait
  | 0, w => (s, w)
  | steps + 1, w =>
    match w.step? s l with
    | none => (s, w)
    | some (s, w) => go s l steps w

/-- Whether waiting from the beginning is over without anything else happening. -/
def Listener.returnsAtOnce (s : Signal) (l : Listener) : Bool := (Wait.go s l 3 .checking).2 = .over

end LoadReplay.Abort
