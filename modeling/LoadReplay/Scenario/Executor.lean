import LoadReplay.Span.Text

/-!
# Executors

How many virtual users a scenario has, and for how long.  The text of an executor names all of its
settings, so it identifies the executor.
-/

namespace LoadReplay

/-- One step of a ramp: towards `target` virtual users within `duration`. -/
structure Stage where
  duration : Span
  target : Nat
  deriving DecidableEq

/-- How a ramp moves within a stage. -/
inductive RampShape where
  /-- From the previous target to the target of the stage, evenly. -/
  | linear
  /-- At once to the target of the stage. -/
  | step
  deriving Repr, DecidableEq

/-- How the virtual users of a scenario come and go. -/
inductive Executor where
  /-- A number of iterations shared by some virtual users. -/
  | fixedIterations (iterations concurrency : Nat)
  /-- Some virtual users for a time. -/
  | constantConcurrency (concurrency : Nat) (duration : Span)
  /-- A number of virtual users that follows a ramp. -/
  | rampingConcurrency (start : Nat) (stages : List Stage) (shape : RampShape)
  deriving DecidableEq

/-- The text of a stage. -/
def Stage.text (s : Stage) : String := " -> " ++ toString s.target ++ " over " ++ s.duration.text

/-- The text of an executor. -/
def Executor.text : Executor → String
  | .fixedIterations iterations concurrency =>
    "fixed-iterations(" ++ toString iterations ++ " x " ++ toString concurrency ++ ")"
  | .constantConcurrency concurrency duration =>
    "constant-concurrency(" ++ toString concurrency ++ " for " ++ duration.text ++ ")"
  | .rampingConcurrency start stages shape =>
    "ramping-concurrency(" ++ toString start ++ String.join (stages.map Stage.text)
      ++ (if shape = .step then ", step" else "") ++ ")"

end LoadReplay
