import LoadReplay.Threshold.Rule

/-!
# Threshold monitors

The monitor of a run judges its rules from time to time.  At the first checkpoint at which a rule
fails that is meant to abort the run, the monitor aborts it and ends.

`Monitor.step` is one step that no other thread can divide.  The rules are judged one after another,
and more samples may be recorded in between.
-/

namespace LoadReplay

/-- Whether a rule that was judged some time after the start of the run aborts it. -/
def RuleVerdict.aborts (elapsed : Span) (v : RuleVerdict) : Bool :=
  v.status == .fail && v.rule.abortFrom.any fun start => start ≤ elapsed

/-- A threshold monitor. -/
inductive Monitor where
  /-- Waiting for the next checkpoint. -/
  | waiting
  /-- About to look whether the run is aborted. -/
  | checking
  /-- About to read the clock. -/
  | timing
  /-- About to judge some more rules, some time after the start of the run. -/
  | judging (elapsed : Span) (judged : List RuleVerdict) (rest : List Rule)
  /-- About to abort the run. -/
  | aborting (cause : RuleVerdict)
  /-- Ended, with the rule that aborted the run if there was one. -/
  | ended (cause : Option RuleVerdict)

namespace Monitor

/-- It is time for a checkpoint. -/
def wake : Monitor → Monitor
  | .waiting => .checking
  | m => m

/-- The run is over. -/
def stop : Monitor → Monitor
  | .waiting => .ended none
  | m => m

/-- When all rules are judged: the first one that aborts the run counts. -/
def decide (elapsed : Span) (judged : List RuleVerdict) : Monitor :=
  match judged.find? (·.aborts elapsed) with
  | none => .waiting
  | some v => .aborting v

/-- One step of a monitor, from what the run looks like some time after its start. -/
def step (rules : List Rule) (recorder : Metric.Recorder) (elapsed : Span) (aborted : Bool) :
    Monitor → Monitor
  | .waiting => .waiting
  | .checking => if aborted then .ended none else .timing
  | .timing => .judging elapsed [] rules
  | .judging elapsed judged (rule :: rest) =>
    .judging elapsed (judged ++ [rule.evaluate recorder]) rest
  | .judging elapsed judged [] => decide elapsed judged
  | .aborting v => .ended (some v)
  | .ended cause => .ended cause

/-- Whether the next step aborts the run. -/
def aborts : Monitor → Bool
  | .aborting _ => true
  | _ => false

/-- The rule that aborted the run. -/
def cause? : Monitor → Option RuleVerdict
  | .ended cause => cause
  | _ => none

/-- Whether the monitor has ended. -/
def isOver : Monitor → Bool
  | .ended _ => true
  | _ => false

end Monitor

end LoadReplay
