import LoadReplay.Span.Basic

/-!
# A clock that is moved by hand

Time stands still except where something sleeps or the clock is advanced.  The clock remembers every
sleep.  It counts nanoseconds in a 64-bit word, so it starts again from zero when that overflows.
-/

namespace LoadReplay

/-- A clock that is moved by hand. -/
structure ManualClock where
  ticks : UInt64
  /-- Every sleep so far, last first. -/
  slept : List Span

namespace ManualClock

/-- A clock that has not been moved. -/
def start : ManualClock := ⟨0, []⟩

/-- What the clock shows. -/
def now (c : ManualClock) : Span := .ofWord c.ticks

/-- The nanoseconds of a span that are counted: at most as many as fit in the word. -/
def counted (a : Span) : UInt64 := (min a.nanos (Nat.pow 2 64 - 1)).toUInt64

/-- Moves the clock. -/
def advance (c : ManualClock) (a : Span) : ManualClock := { c with ticks := c.ticks + counted a }

/-- Sleeps: time passes at once. -/
def sleep (c : ManualClock) (a : Span) : ManualClock :=
  { c with slept := a :: c.slept }.advance a

/-- Sleeps unless the run is shut down; also says whether it slept. -/
def sleepUnless (c : ManualClock) (shutdown : Bool) (a : Span) : Bool × ManualClock :=
  if shutdown then (false, c) else (true, c.sleep a)

/-- Every sleep so far, in order. -/
def sleeps (c : ManualClock) : List Span := c.slept.reverse

end ManualClock

end LoadReplay
