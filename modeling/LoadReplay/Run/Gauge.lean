/-!
# Gauges

How many virtual users a scenario has.  A virtual user counts as running until its thread is about
to exit, and as active until it is told to retire, or its thread is about to exit.

The counters change one at a time, and other threads may change them in between.
-/

namespace LoadReplay

/-- The counts of the virtual users of a scenario. -/
structure Gauge where
  active : Nat
  running : Nat
  /-- The most that were running at once. -/
  peak : Nat
  /-- All that were ever started. -/
  spawned : Nat
  deriving Repr, DecidableEq

namespace Gauge

/-- No virtual users so far. -/
def zero : Gauge := ⟨0, 0, 0, 0⟩

/-- One more user is active. -/
def addActive (g : Gauge) : Gauge := { g with active := g.active + 1 }

/-- One more user is running. -/
def addRunning (g : Gauge) : Gauge := { g with running := g.running + 1 }

/-- The peak after some number of users was running. -/
def raisePeak (g : Gauge) (running : Nat) : Gauge := { g with peak := max g.peak running }

/-- One more user was started. -/
def addSpawned (g : Gauge) : Gauge := { g with spawned := g.spawned + 1 }

/-- One user is no longer active. -/
def dropActive (g : Gauge) : Gauge := { g with active := g.active - 1 }

/-- One user is no longer running. -/
def dropRunning (g : Gauge) : Gauge := { g with running := g.running - 1 }

end Gauge

end LoadReplay
