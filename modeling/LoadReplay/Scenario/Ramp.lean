import LoadReplay.Number.Scalar
import LoadReplay.Scenario.Executor

/-!
# Ramps

Where a ramp is at a moment.  The stages follow one another; a stage without length is an instant
step.  The linear target is computed over any `Number.Scalar`, so the same definition says what the
binary64 computation stands for.
-/

namespace LoadReplay.Ramp

open Number

/-- Where a ramp is at a moment. -/
structure Point where
  /-- The number of virtual users wanted. -/
  target : Nat
  /-- The stage in progress, if the ramp is not over. -/
  stage : Option Nat
  finished : Bool
  deriving Repr, DecidableEq

/-- The length of all stages, if it is in range. -/
def totalDuration? (stages : List Stage) : Option Span := Span.sum? (stages.map (·.duration))

/-- A length of time in seconds over any scalar. -/
def seconds (α : Type) [Scalar α] (a : Span) : α :=
  Scalar.ofNat a.seconds + Scalar.ofNat a.subNanos / Scalar.ofNat 1_000_000_000

/-- The target on the line from `previous` to the target of a stage, `elapsed` after the stage
began: rounded down, and never beyond the greater end. -/
def linearTarget (α : Type) [Scalar α] (previous : Nat) (stage : Stage) (elapsed : Span) : Nat :=
  let progress := seconds α elapsed / seconds α stage.duration
  let from' : α := Scalar.ofNat previous
  let value := from' + (Scalar.ofNat stage.target - from') * progress
  min (Scalar.floor value) (max previous stage.target)

/-- The target within a stage. -/
def stageTarget (α : Type) [Scalar α] (shape : RampShape) (previous : Nat) (stage : Stage)
    (elapsed : Span) : Nat :=
  match shape with
  | .step => stage.target
  | .linear => linearTarget α previous stage elapsed

/-- Where a ramp is whose stages from number `index` on begin at `stageStart`, coming from the
target `previous`.  There is no answer if the end of a stage that is reached lies beyond all spans.
-/
def pointFrom (α : Type) [Scalar α] (shape : RampShape) (elapsed : Span) (previous index : Nat)
    (stageStart : Span) : List Stage → Option Point
  | [] => some { target := previous, stage := none, finished := true }
  | stage :: rest =>
    match stageStart.add? stage.duration with
    | none => none
    | some stageEnd =>
      if elapsed < stageEnd then
        some
          { target := stageTarget α shape previous stage (elapsed - stageStart)
            stage := some index, finished := false }
      else pointFrom α shape elapsed stage.target (index + 1) stageEnd rest

/-- Where a ramp is, `elapsed` after it began. -/
def pointAt (α : Type) [Scalar α] (start : Nat) (stages : List Stage) (shape : RampShape)
    (elapsed : Span) : Option Point :=
  pointFrom α shape elapsed start 0 .zero stages

end LoadReplay.Ramp
