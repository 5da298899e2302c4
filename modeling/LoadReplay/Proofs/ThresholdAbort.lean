import LoadReplay.Run.Vigil
import Mathlib.Data.List.Induction

/-!
# When a rule aborts the run

A monitor aborts the run at the first checkpoint at which some rule fails that may abort it by then,
unless the run is over or aborted before.  A rule is judged by the samples that are recorded when
its turn comes, so the rules of one checkpoint may see different samples.

A checkpoint as a whole is worked out in `Vigil.next_checkpoint`; `Vigil.Watched` says what a whole
run has done to the monitor, and is kept by each event.

Main statement: `Vigil.aborts_exactly`.
-/

namespace LoadReplay

namespace Metric.Recorder

/-- A recorder that has recorded some more samples. -/
def recordAll (r : Recorder) (samples : List Sample) : Recorder := samples.foldl record r

/-- Samples are recorded one after another. -/
theorem recordAll_append (r : Recorder) (a b : List Sample) :
    r.recordAll (a ++ b) = (r.recordAll a).recordAll b :=
  List.foldl_append

end Metric.Recorder

namespace Vigil

/-! ## What happens to the run -/

/-- The sample that is recorded. -/
def Disturbance.sample? : Disturbance → Option Sample
  | .record sample => some sample
  | .abort => none

/-- The samples that are recorded. -/
def recorded (ds : List Disturbance) : List Sample := ds.filterMap Disturbance.sample?

/-- What other threads do in the course of an event, if there are `n` rules. -/
def Event.disturbances (n : Nat) : Event → List Disturbance
  | .disturb d => [d]
  | .checkpoint _ early late => early ++ (List.range (n + 2)).flatMap late
  | .stop => []

/-- What other threads do in the course of some events. -/
def history (rules : List Rule) (events : List Event) : List Disturbance :=
  events.flatMap (·.disturbances rules.length)

/-- What others do is what they do before and after. -/
theorem history_append (rules : List Rule) (a b : List Event) :
    history rules (a ++ b) = history rules a ++ history rules b :=
  List.flatMap_append

/-- At a checkpoint after some events, the rule at `k` fails with a verdict and may abort the run:
it is judged by all samples recorded so far, and its delay is over. -/
def Fails (rules : List Rule) (before : List Event) (elapsed : Span) (early : List Disturbance)
    (late : Nat → List Disturbance) (k : Nat) (v : RuleVerdict) : Prop :=
  ∃ rule start, rules[k]? = some rule ∧
    v = rule.evaluate (.recordAll .empty
      (recorded (history rules before ++ early ++ (List.range (k + 1)).flatMap late))) ∧
    v.status = .fail ∧ rule.abortFrom = some start ∧ start ≤ elapsed

/-- No rule fails at any of the checkpoints of some events. -/
def Quiet (rules : List Rule) (events : List Event) : Prop :=
  ∀ before elapsed early late after, events = before ++ .checkpoint elapsed early late :: after →
    ∀ k v, ¬Fails rules before elapsed early late k v

/-- Some verdict is that of the first rule that fails at the first checkpoint at which one does, and
until then the run is neither over nor aborted. -/
def Causes (rules : List Rule) (events : List Event) (v : RuleVerdict) : Prop :=
  ∃ before elapsed early late after k,
    events = before ++ .checkpoint elapsed early late :: after ∧
    .stop ∉ before ∧ .abort ∉ history rules before ∧ Quiet rules before ∧
    Fails rules before elapsed early late k v ∧
    ∀ j < k, ∀ v', ¬Fails rules before elapsed early late j v'

/-! ## Steps -/

variable {rules : List Rule} {elapsed : Span} {s : Vigil}

/-- So is what they record. -/
theorem recorded_append (a b : List Disturbance) : recorded (a ++ b) = recorded a ++ recorded b :=
  List.filterMap_append

/-- What is recorded from one step on. -/
theorem recordAll_range' (r : Metric.Recorder) (late : Nat → List Disturbance) (k n : Nat) :
    r.recordAll (recorded ((List.range' k (n + 1)).flatMap late)) =
      (r.recordAll (recorded (late k))).recordAll
        (recorded ((List.range' (k + 1) n).flatMap late)) := by
  rw [List.range'_succ, List.flatMap_cons, recorded_append, Metric.Recorder.recordAll_append]

/-- Other threads leave the monitor alone. -/
theorem disturbAll_eq (s : Vigil) (ds : List Disturbance) :
    (s.disturbAll ds).monitor = s.monitor ∧
      (s.disturbAll ds).recorder = s.recorder.recordAll (recorded ds) ∧
      ((s.disturbAll ds).aborted = true ↔ s.aborted = true ∨ .abort ∈ ds) := by
  induction ds generalizing s with
  | nil => exact ⟨rfl, rfl, by simp [disturbAll]⟩
  | cons d ds ih =>
    obtain ⟨hmonitor, hrecorder, haborted⟩ := ih (s.disturb d)
    cases d with
    | record sample =>
      refine ⟨hmonitor, hrecorder, haborted.trans ?_⟩
      simp [disturb]
    | abort =>
      refine ⟨hmonitor, hrecorder, haborted.trans ?_⟩
      simp [disturb]

/-- A step of the monitor after what other threads have done. -/
theorem step_disturbAll (rules : List Rule) (elapsed : Span) (s : Vigil) (ds : List Disturbance) :
    ((s.disturbAll ds).step rules elapsed).monitor =
        s.monitor.step rules (s.recorder.recordAll (recorded ds)) elapsed
          (s.disturbAll ds).aborted ∧
      ((s.disturbAll ds).step rules elapsed).recorder = s.recorder.recordAll (recorded ds) ∧
      (((s.disturbAll ds).step rules elapsed).aborted = true ↔
        s.aborted = true ∨ .abort ∈ ds ∨ s.monitor.aborts = true) := by
  obtain ⟨hmonitor, hrecorder, haborted⟩ := s.disturbAll_eq ds
  refine ⟨?_, hrecorder, ?_⟩
  · rw [step, hmonitor, hrecorder]
  · rw [step, hmonitor, Bool.or_eq_true, haborted, or_assoc]

/-- Steps of the monitor record nothing. -/
theorem recorder_steps (late : Nat → List Disturbance) (n k : Nat) (s : Vigil) :
    (steps rules elapsed late n k s).recorder =
      s.recorder.recordAll (recorded ((List.range' k n).flatMap late)) := by
  induction n generalizing k s with
  | zero => rfl
  | succ n ih => rw [steps, ih, (step_disturbAll rules elapsed s (late k)).2.1, recordAll_range']

/-- A monitor that has ended does nothing more. -/
theorem steps_of_ended (rules : List Rule) (elapsed : Span) (late : Nat → List Disturbance)
    (n k : Nat) {c : Option RuleVerdict} (h : s.monitor = .ended c) :
    (steps rules elapsed late n k s).monitor = .ended c ∧
      ((steps rules elapsed late n k s).aborted = true ↔
        s.aborted = true ∨ .abort ∈ (List.range' k n).flatMap late) := by
  induction n generalizing k s with
  | zero => exact ⟨h, by simp [steps]⟩
  | succ n ih =>
    obtain ⟨hmonitor, -, haborted⟩ := step_disturbAll rules elapsed s (late k)
    rw [h] at hmonitor haborted
    obtain ⟨hended, hrest⟩ := ih (k + 1) hmonitor
    refine ⟨hended, hrest.trans ?_⟩
    rw [haborted, List.range'_succ, List.flatMap_cons, List.mem_append]
    simp [Monitor.aborts, or_assoc]

/-- The verdicts on some rules, the first of which is the one at `k`, from what is recorded before
it is judged. -/
def verdicts (late : Nat → List Disturbance) : List Rule → Nat → Metric.Recorder → List RuleVerdict
  | [], _, _ => []
  | rule :: rest, k, r =>
    let r := r.recordAll (recorded (late k))
    rule.evaluate r :: verdicts late rest (k + 1) r

/-- The rule at a place is judged by what was recorded when its turn came. -/
theorem getElem?_verdicts (late : Nat → List Disturbance) (rest : List Rule) (k j : Nat)
    (r : Metric.Recorder) :
    (verdicts late rest k r)[j]? = rest[j]?.map fun rule =>
      rule.evaluate (r.recordAll (recorded ((List.range' k (j + 1)).flatMap late))) := by
  induction rest generalizing k j r with
  | nil => rfl
  | cons rule rest ih =>
    cases j with
    | zero => simp [verdicts, List.range'_succ]
    | succ j =>
      rw [verdicts, List.getElem?_cons_succ, ih, List.getElem?_cons_succ]
      simp only [recordAll_range' r late k (j + 1)]

/-- Where a monitor is when it has judged all rules and has acted upon that. -/
def settle : Option RuleVerdict → Monitor
  | none => .waiting
  | some v => .ended (some v)

/-- When all rules are judged, two more steps settle the checkpoint. -/
theorem steps_decide (late : Nat → List Disturbance) (k : Nat) {start : Span}
    {judged : List RuleVerdict} (h : s.monitor = .judging start judged []) :
    (steps rules elapsed late 2 k s).monitor = settle (judged.find? (·.aborts start)) ∧
      ((steps rules elapsed late 2 k s).aborted = true ↔
        s.aborted = true ∨ .abort ∈ (List.range' k 2).flatMap late ∨
          (judged.find? (·.aborts start)).isSome = true) := by
  obtain ⟨hmonitor, -, haborted⟩ := step_disturbAll rules elapsed s (late k)
  rw [h] at hmonitor haborted
  rw [steps, steps, steps]
  generalize (s.disturbAll (late k)).step rules elapsed = s' at hmonitor haborted
  obtain ⟨hlast, -, hflag⟩ :=
    step_disturbAll rules elapsed s' (late (k + 1))
  have hdecide : s'.monitor = Monitor.decide start judged := hmonitor
  rw [hdecide, Monitor.decide] at hlast hflag
  have hlate : .abort ∈ (List.range' k 2).flatMap late ↔
      Disturbance.abort ∈ late k ∨ .abort ∈ late (k + 1) := by
    simp [List.range'_succ]
  rw [hlate]
  -- The first of the two steps decides, and the second one may abort the run.
  cases hfind : judged.find? (·.aborts start) with
  | none =>
    simp only [hfind] at hlast hflag
    refine ⟨hlast, hflag.trans ?_⟩
    rw [haborted]
    simp [Monitor.aborts, or_assoc]
  | some v =>
    simp only [hfind] at hlast hflag
    refine ⟨hlast, hflag.trans ?_⟩
    rw [haborted]
    simp [Monitor.aborts]

/-- The rest of a checkpoint judges the rest of the rules and settles it. -/
theorem steps_judging (rules : List Rule) (elapsed : Span) (late : Nat → List Disturbance) (k : Nat)
    {start : Span} {judged : List RuleVerdict} {rest : List Rule}
    (h : s.monitor = .judging start judged rest) :
    let failure := (judged ++ verdicts late rest k s.recorder).find? (·.aborts start)
    (steps rules elapsed late (rest.length + 2) k s).monitor = settle failure ∧
      ((steps rules elapsed late (rest.length + 2) k s).aborted = true ↔
        s.aborted = true ∨ .abort ∈ (List.range' k (rest.length + 2)).flatMap late ∨
          failure.isSome = true) := by
  intro failure
  -- On the rules still to be judged; each step judges one by what is recorded at that moment.
  induction rest generalizing k judged s with
  | nil =>
    have hall : failure = judged.find? (·.aborts start) := by
      show (judged ++ []).find? _ = _
      rw [List.append_nil]
    rw [hall]
    exact steps_decide late k h
  | cons rule rest ih =>
    obtain ⟨hmonitor, hrecorder, haborted⟩ :=
      step_disturbAll rules elapsed s (late k)
    rw [h] at hmonitor haborted
    obtain ⟨hsettled, hflag⟩ := ih (k + 1) hmonitor
    rw [hrecorder] at hsettled hflag
    have hsame : (judged ++ [rule.evaluate (s.recorder.recordAll (recorded (late k)))]) ++
        verdicts late rest (k + 1) (s.recorder.recordAll (recorded (late k))) =
          judged ++ verdicts late (rule :: rest) k s.recorder := by
      rw [List.append_assoc]
      rfl
    rw [hsame] at hsettled hflag
    refine ⟨hsettled, hflag.trans ?_⟩
    rw [haborted]
    have hsplit : .abort ∈ (List.range' k ((rule :: rest).length + 2)).flatMap late ↔
        Disturbance.abort ∈ late k ∨
          .abort ∈ (List.range' (k + 1) (rest.length + 2)).flatMap late := by
      rw [List.length_cons, Nat.add_right_comm, List.range'_succ, List.flatMap_cons,
        List.mem_append]
    have hgoes : (Monitor.judging start judged (rule :: rest)).aborts = false := rfl
    rw [hsplit, hgoes]
    simp only [Bool.false_eq_true, or_false, or_assoc]
    exact Iff.rfl

/-! ## Checkpoints -/

/-- The verdict that a whole checkpoint comes to, if it begins when something is recorded. -/
def failure? (rules : List Rule) (elapsed : Span) (late : Nat → List Disturbance)
    (r : Metric.Recorder) : Option RuleVerdict :=
  (verdicts late rules 0 r).find? (·.aborts elapsed)

/-- A whole checkpoint: the monitor ends if it sees that the run is aborted, and otherwise it aborts
the run if a rule fails that may do so. -/
theorem next_checkpoint (rules : List Rule) (elapsed : Span) (early : List Disturbance)
    (late : Nat → List Disturbance) (h : s.monitor = .waiting) :
    let event : Event := .checkpoint elapsed early late
    let failure := if s.aborted then none
      else failure? rules elapsed late (s.recorder.recordAll (recorded early))
    (s.next rules event).monitor = (if s.aborted then .ended none else settle failure) ∧
      ((s.next rules event).aborted = true ↔ s.aborted = true ∨
        .abort ∈ event.disturbances rules.length ∨ failure.isSome = true) := by
  intro event failure
  have hlook : (({ s with monitor := s.monitor.wake } : Vigil).step rules elapsed).monitor =
      if s.aborted then .ended none else .timing := by
    rw [h]
    rfl
  have hflag : (({ s with monitor := s.monitor.wake } : Vigil).step rules elapsed).aborted =
      s.aborted := by
    rw [h]
    exact Bool.or_false _
  have hnext : s.next rules event = steps rules elapsed late (rules.length + 2) 0
      (((({ s with monitor := s.monitor.wake } : Vigil).step rules elapsed).disturbAll early).step
        rules elapsed) := rfl
  have hrecorder : (({ s with monitor := s.monitor.wake } : Vigil).step rules elapsed).recorder =
      s.recorder := rfl
  have hevent : .abort ∈ event.disturbances rules.length ↔
      Disturbance.abort ∈ early ∨ .abort ∈ (List.range' 0 (rules.length + 2)).flatMap late := by
    rw [← List.range_eq_range']
    exact List.mem_append
  rw [hnext, hevent]
  generalize ({ s with monitor := s.monitor.wake } : Vigil).step rules elapsed = s₁ at *
  obtain ⟨hmonitor, hearly, haborted⟩ := step_disturbAll rules elapsed s₁ early
  rw [hlook] at hmonitor haborted
  rw [hflag] at haborted
  -- A monitor that finds the run aborted ends without judging anything.
  cases hs : s.aborted with
  | true =>
    simp only [hs, if_true] at hmonitor haborted
    obtain ⟨hended, hrest⟩ := steps_of_ended rules elapsed late (rules.length + 2) 0 hmonitor
    refine ⟨hended, hrest.trans ?_⟩
    simp [haborted]
  | false =>
    simp only [hs, Bool.false_eq_true, if_false] at hmonitor haborted
    have hnone : failure = failure? rules elapsed late (s.recorder.recordAll (recorded early)) := by
      show (if s.aborted = true then none else _) = _
      rw [hs]
      rfl
    obtain ⟨hsettled, hrest⟩ := steps_judging rules elapsed late 0 hmonitor
    rw [hearly, hrecorder] at hsettled hrest
    rw [hnone]
    refine ⟨hsettled, hrest.trans ?_⟩
    rw [haborted]
    simp only [Monitor.aborts, Bool.false_eq_true, or_false, false_or, or_assoc]
    exact Iff.rfl

/-- What other threads record in the course of an event is recorded, whatever the monitor does. -/
theorem recorder_next (s : Vigil) (event : Event) :
    (s.next rules event).recorder =
      s.recorder.recordAll (recorded (event.disturbances rules.length)) := by
  cases event with
  | disturb d => cases d <;> rfl
  | stop => rfl
  | checkpoint elapsed early late =>
    rw [next, judge, recorder_steps, ← List.range_eq_range']
    show (((_ : Vigil).disturbAll early).recorder).recordAll _ = _
    rw [(disturbAll_eq _ early).2.1, Event.disturbances, recorded_append,
      Metric.Recorder.recordAll_append]
    rfl

/-- A monitor that has ended does not judge any more. -/
theorem step_of_ended {c : Option RuleVerdict} (h : s.monitor = .ended c) :
    ({ s with monitor := s.monitor.wake } : Vigil).step rules elapsed = s := by
  obtain ⟨monitor, recorder, aborted⟩ := s
  obtain rfl : monitor = .ended c := h
  simp [step, Monitor.wake, Monitor.step, Monitor.aborts]

/-- A monitor that has ended stays so, and no longer aborts the run. -/
theorem next_of_ended (rules : List Rule) {c : Option RuleVerdict} (h : s.monitor = .ended c)
    (event : Event) :
    (s.next rules event).monitor = .ended c ∧
      ((s.next rules event).aborted = true ↔
        s.aborted = true ∨ .abort ∈ event.disturbances rules.length) := by
  -- A monitor that has ended only looks on.
  cases event with
  | disturb d =>
    refine ⟨?_, ?_⟩
    · cases d <;> exact h
    · cases d <;> simp [next, disturb, Event.disturbances]
  | stop =>
    refine ⟨?_, by simp [next, Event.disturbances]⟩
    rw [next, h]
    rfl
  | checkpoint elapsed early late =>
    have hnext : s.next rules (.checkpoint elapsed early late) =
        steps rules elapsed late (rules.length + 2) 0
          ((s.disturbAll early).step rules elapsed) := by
      rw [next]
      simp only [step_of_ended h]
      rfl
    obtain ⟨hmonitor, -, haborted⟩ := step_disturbAll rules elapsed s early
    rw [h] at hmonitor haborted
    obtain ⟨hended, hrest⟩ := steps_of_ended rules elapsed late (rules.length + 2) 0 hmonitor
    rw [hnext]
    refine ⟨hended, hrest.trans ?_⟩
    rw [haborted, ← List.range_eq_range', Event.disturbances, List.mem_append]
    simp [Monitor.aborts, or_assoc]

/-- It stays so, whatever happens. -/
theorem run_of_ended {c : Option RuleVerdict} (h : s.monitor = .ended c) (events : List Event) :
    (s.run rules events).monitor = .ended c := by
  induction events generalizing s with
  | nil => exact h
  | cons event rest ih => exact ih (next_of_ended rules h event).1

/-! ## Failures -/

variable {events before : List Event} {early : List Disturbance} {late : Nat → List Disturbance}

/-- What is recorded when the run has gone so far. -/
def seen (rules : List Rule) (events : List Event) : Metric.Recorder :=
  .recordAll .empty (recorded (history rules events))

/-- What is seen at the end of a checkpoint includes what was recorded in it. -/
theorem seen_append (events : List Event) (event : Event) :
    seen rules (events ++ [event]) =
      (seen rules events).recordAll (recorded (event.disturbances rules.length)) := by
  rw [seen, history_append, recorded_append, Metric.Recorder.recordAll_append, seen]
  simp [history]

/-- A rule fails at a checkpoint if its verdict aborts the run. -/
theorem fails_iff {k : Nat} {v : RuleVerdict} :
    Fails rules before elapsed early late k v ↔
      (verdicts late rules 0 ((seen rules before).recordAll (recorded early)))[k]? = some v ∧
        v.aborts elapsed = true := by
  have hrecorder (k : Nat) : Metric.Recorder.recordAll .empty
      (recorded (history rules before ++ early ++ (List.range (k + 1)).flatMap late)) =
        ((seen rules before).recordAll (recorded early)).recordAll
          (recorded ((List.range' 0 (k + 1)).flatMap late)) := by
    rw [recorded_append, recorded_append, Metric.Recorder.recordAll_append,
      Metric.Recorder.recordAll_append, List.range_eq_range']
    rfl
  rw [getElem?_verdicts, Option.map_eq_some_iff, Fails]
  simp only [hrecorder]
  constructor
  · rintro ⟨rule, start, hrule, rfl, hfail, hstart, hle⟩
    refine ⟨⟨rule, hrule, rfl⟩, ?_⟩
    rw [RuleVerdict.aborts, hfail]
    show (true && rule.abortFrom.any fun start => decide (start ≤ elapsed)) = true
    simp [hstart, hle]
  · rintro ⟨⟨rule, hrule, rfl⟩, haborts⟩
    rw [RuleVerdict.aborts, Bool.and_eq_true] at haborts
    obtain ⟨hfail, hdelay⟩ := haborts
    obtain ⟨start, hstart, hle⟩ := (Option.any_eq_true _ _).1 hdelay
    exact ⟨rule, start, hrule, rfl, by simpa using hfail, hstart, by simpa using hle⟩

/-- A checkpoint comes to no verdict if no rule fails at it. -/
theorem failure?_eq_none :
    failure? rules elapsed late ((seen rules before).recordAll (recorded early)) = none ↔
      ∀ k v, ¬Fails rules before elapsed early late k v := by
  simp only [fails_iff, failure?, List.find?_eq_none, List.mem_iff_getElem?]
  constructor
  · rintro h k v ⟨hv, haborts⟩
    exact h v ⟨k, hv⟩ haborts
  · rintro h v ⟨k, hv⟩ haborts
    exact h k v ⟨hv, haborts⟩

/-- A checkpoint comes to the verdict of the first rule that fails at it. -/
theorem failure?_eq_some {v : RuleVerdict} :
    failure? rules elapsed late ((seen rules before).recordAll (recorded early)) = some v ↔
      ∃ k, Fails rules before elapsed early late k v ∧
        ∀ j < k, ∀ v', ¬Fails rules before elapsed early late j v' := by
  simp only [fails_iff, failure?, List.find?_eq_some_iff_getElem]
  constructor
  · rintro ⟨haborts, k, hk, rfl, hfirst⟩
    refine ⟨k, ⟨List.getElem?_eq_getElem hk, haborts⟩, ?_⟩
    rintro j hj v' ⟨hv', haborts'⟩
    obtain ⟨hlt, rfl⟩ := List.getElem?_eq_some_iff.1 hv'
    have hnot := hfirst j hj
    rw [haborts'] at hnot
    cases hnot
  · rintro ⟨k, ⟨hv, haborts⟩, hfirst⟩
    obtain ⟨hk, rfl⟩ := List.getElem?_eq_some_iff.1 hv
    refine ⟨haborts, k, hk, rfl, fun j hj => ?_⟩
    have hnot := fun haborts' =>
      hfirst j hj _ ⟨List.getElem?_eq_getElem (Nat.lt_trans hj hk), haborts'⟩
    simpa using hnot

/-! ## Runs -/

/-- At some checkpoint the monitor sees that the run is aborted, if it has not ended before. -/
def AbortSeen (rules : List Rule) (events : List Event) : Prop :=
  ∃ before elapsed early late after, events = before ++ .checkpoint elapsed early late :: after ∧
    .abort ∈ history rules before

/-- What some events have done to a monitor. -/
structure Watched (rules : List Rule) (events : List Event) (s : Vigil) : Prop where
  recorder : s.recorder = seen rules events
  aborted : s.aborted = true ↔
    .abort ∈ history rules events ∨ ∃ v, s.monitor = .ended (some v)
  monitor :
    s.monitor = .waiting ∧ .stop ∉ events ∧ ¬AbortSeen rules events ∧ Quiet rules events ∨
    s.monitor = .ended none ∧ (.stop ∈ events ∨ AbortSeen rules events) ∨
    ∃ v, s.monitor = .ended (some v) ∧ Causes rules events v

/-- Where a checkpoint is if there is one event more. -/
theorem checkpoint_concat {event : Event} {after : List Event}
    (h : events ++ [event] = before ++ .checkpoint elapsed early late :: after) :
    (events = before ∧ event = .checkpoint elapsed early late) ∨
      ∃ rest, events = before ++ .checkpoint elapsed early late :: rest := by
  rcases List.eq_nil_or_concat after with rfl | ⟨rest, last, rfl⟩
  · obtain ⟨hevents, hevent⟩ := List.append_inj' h rfl
    exact .inl ⟨hevents, (List.cons.inj hevent).1⟩
  · refine .inr ⟨rest, ?_⟩
    have hinit : events ++ [event] =
        (before ++ .checkpoint elapsed early late :: rest) ++ [last] := by
      rw [h]
      simp
    exact (List.append_inj' hinit rfl).1

/-- No rule has failed so far if none had failed before and none fails now. -/
theorem Quiet.concat (h : Quiet rules events) {event : Event}
    (hlast : ∀ elapsed early late, event = .checkpoint elapsed early late →
      ∀ k v, ¬Fails rules events elapsed early late k v) : Quiet rules (events ++ [event]) := by
  intro before elapsed early late after hsplit
  rcases checkpoint_concat hsplit with ⟨rfl, hevent⟩ | ⟨rest, hevents⟩
  · exact hlast elapsed early late hevent
  · exact h before elapsed early late rest hevents

/-- No abort is seen so far if none was seen before and the run is not aborted now. -/
theorem not_abortSeen_concat (h : ¬AbortSeen rules events) {event : Event}
    (hlast : ∀ elapsed early late, event = .checkpoint elapsed early late →
      .abort ∉ history rules events) : ¬AbortSeen rules (events ++ [event]) := by
  rintro ⟨before, elapsed, early, late, after, hsplit, habort⟩
  rcases checkpoint_concat hsplit with ⟨rfl, hevent⟩ | ⟨rest, hevents⟩
  · exact hlast elapsed early late hevent habort
  · exact h ⟨before, elapsed, early, late, rest, hevents, habort⟩

/-- An abort that was seen was seen, whatever follows. -/
theorem AbortSeen.append (h : AbortSeen rules events) (more : List Event) :
    AbortSeen rules (events ++ more) := by
  obtain ⟨before, elapsed, early, late, after, hsplit, habort⟩ := h
  exact ⟨before, elapsed, early, late, after ++ more, by rw [hsplit]; simp, habort⟩

/-- Only an abort that took place is seen. -/
theorem AbortSeen.mem_history (h : AbortSeen rules events) : .abort ∈ history rules events := by
  obtain ⟨before, elapsed, early, late, after, rfl, habort⟩ := h
  rw [history_append]
  exact List.mem_append_left _ habort

/-- What caused the abort did so, whatever follows. -/
theorem Causes.append {v : RuleVerdict} (h : Causes rules events v) (more : List Event) :
    Causes rules (events ++ more) v := by
  obtain ⟨before, elapsed, early, late, after, k, hsplit, hcause⟩ := h
  exact ⟨before, elapsed, early, late, after ++ more, k, by rw [hsplit]; simp, hcause⟩

/-- There was an abort before the last event or in it. -/
theorem mem_history_concat {event : Event} :
    .abort ∈ history rules (events ++ [event]) ↔
      Disturbance.abort ∈ history rules events ∨ .abort ∈ event.disturbances rules.length := by
  rw [history_append, List.mem_append]
  simp [history]

/-- A monitor that has ended is not concerned by another event. -/
theorem Watched.next_of_ended (h : s.Watched rules events) {c : Option RuleVerdict}
    (hc : s.monitor = .ended c) (event : Event) :
    (s.next rules event).Watched rules (events ++ [event]) := by
  obtain ⟨hmonitor, hflag⟩ := Vigil.next_of_ended rules hc event
  refine ⟨?_, ?_, ?_⟩
  · rw [recorder_next, h.recorder, seen_append]
  · rw [hflag, h.aborted, hmonitor, mem_history_concat, hc, or_right_comm]
  · rw [hmonitor]
    rcases h.monitor with ⟨hwaiting, -⟩ | ⟨hended, hwhy⟩ | ⟨v, hended, hcause⟩
    · rw [hwaiting] at hc
      cases hc
    · obtain rfl : c = none := by simpa [hended, eq_comm] using hc
      exact .inr (.inl ⟨rfl, hwhy.imp (List.mem_append_left _) (·.append _)⟩)
    · obtain rfl : c = some v := by simpa [hended, eq_comm] using hc
      exact .inr (.inr ⟨v, rfl, hcause.append _⟩)

/-- A monitor that waits until a checkpoint comes out of it as the failures of its rules say. -/
theorem Watched.next_checkpoint (h : s.Watched rules events) (hwaiting : s.monitor = .waiting)
    (hstop : .stop ∉ events) (hseen : ¬AbortSeen rules events) (hquiet : Quiet rules events)
    (elapsed : Span) (early : List Disturbance) (late : Nat → List Disturbance) :
    (s.next rules (.checkpoint elapsed early late)).Watched rules
      (events ++ [.checkpoint elapsed early late]) := by
  have hrecorder : (s.next rules (.checkpoint elapsed early late)).recorder =
      seen rules (events ++ [.checkpoint elapsed early late]) := by
    rw [recorder_next, h.recorder, seen_append]
  have hstop' : .stop ∉ events ++ [.checkpoint elapsed early late] := by simpa using hstop
  obtain ⟨hmonitor, hflag⟩ := Vigil.next_checkpoint rules elapsed early late hwaiting
  rw [h.recorder] at hmonitor hflag
  have hhistory : s.aborted = true ↔ .abort ∈ history rules events := by
    rw [h.aborted, hwaiting]
    simp
  cases hs : s.aborted with
  | true =>
    have habort := hhistory.1 hs
    simp only [hs, if_true] at hmonitor hflag
    have hseen : AbortSeen rules (events ++ [.checkpoint elapsed early late]) :=
      ⟨events, elapsed, early, late, [], rfl, habort⟩
    refine ⟨hrecorder, ?_, .inr (.inl ⟨hmonitor, .inr hseen⟩)⟩
    rw [hflag, mem_history_concat]
    simp [habort]
  | false =>
    have habort : .abort ∉ history rules events := fun h => by
      rw [hhistory.2 h] at hs
      cases hs
    simp only [hs, Bool.false_eq_true, if_false, false_or] at hmonitor hflag
    -- Without a failure the monitor waits for the next checkpoint, and nothing has been seen to
    -- fail.
    cases hfailure :
      failure? rules elapsed late ((seen rules events).recordAll (recorded early)) with
    | none =>
      rw [hfailure] at hmonitor hflag
      refine ⟨hrecorder, ?_, .inl ⟨hmonitor, hstop', ?_, hquiet.concat ?_⟩⟩
      · rw [hflag, mem_history_concat, hmonitor]
        simp [habort, settle]
      · exact not_abortSeen_concat hseen fun _ _ _ _ => habort
      · rintro _ _ _ ⟨⟩
        exact failure?_eq_none.1 hfailure
    | some v =>
      rw [hfailure] at hmonitor hflag
      obtain ⟨k, hfails, hfirst⟩ := failure?_eq_some.1 hfailure
      refine ⟨hrecorder, ?_, .inr (.inr ⟨v, hmonitor, ?_⟩)⟩
      · rw [hflag, hmonitor]
        simp [settle]
      · exact ⟨events, elapsed, early, late, [], k, rfl, hstop, habort, hquiet, hfails, hfirst⟩

/-- A monitor that waits is concerned by a checkpoint and by the end of the run. -/
theorem Watched.next_of_waiting (h : s.Watched rules events) (hwaiting : s.monitor = .waiting)
    (hstop : .stop ∉ events) (hseen : ¬AbortSeen rules events) (hquiet : Quiet rules events)
    (event : Event) : (s.next rules event).Watched rules (events ++ [event]) := by
  have hflag : s.aborted = true ↔ .abort ∈ history rules events := by
    rw [h.aborted, hwaiting]
    simp
  have hrecorder : (s.next rules event).recorder = seen rules (events ++ [event]) := by
    rw [recorder_next, h.recorder, seen_append]
  cases event with
  | disturb d =>
    have hmonitor : (s.next rules (.disturb d)).monitor = .waiting := by cases d <;> exact hwaiting
    refine ⟨hrecorder, ?_, .inl ⟨hmonitor, by simpa using hstop, ?_, hquiet.concat ?_⟩⟩
    · rw [hmonitor, mem_history_concat, ← hflag]
      cases d <;> simp [next, disturb, Event.disturbances]
    · refine not_abortSeen_concat hseen fun _ _ _ hevent => ?_
      cases hevent
    · intro _ _ _ hevent
      cases hevent
  | stop =>
    have hmonitor : (s.next rules .stop).monitor = .ended none := by
      rw [next, hwaiting]
      rfl
    refine ⟨hrecorder, ?_, .inr (.inl ⟨hmonitor, .inl (by simp)⟩)⟩
    rw [hmonitor, mem_history_concat, ← hflag]
    simp [next, Event.disturbances]
  | checkpoint elapsed early late =>
    exact h.next_checkpoint hwaiting hstop hseen hquiet elapsed early late

/-- What a whole run has done to its monitor. -/
theorem watched_run (rules : List Rule) (events : List Event) :
    (start.run rules events).Watched rules events := by
  induction events using List.reverseRecOn with
  | nil =>
    refine ⟨rfl, by simp [start, run, history], .inl ⟨rfl, by simp, ?_, ?_⟩⟩
    · rintro ⟨before, elapsed, early, late, after, hsplit, -⟩
      simp at hsplit
    · intro before elapsed early late after hsplit
      simp at hsplit
  | append_singleton events event ih =>
    have hrun :
        start.run rules (events ++ [event]) = (start.run rules events).next rules event := by
      simp [run]
    rw [hrun]
    rcases ih.monitor with ⟨hwaiting, hstop, hseen, hquiet⟩ | ⟨hended, -⟩ | ⟨v, hended, -⟩
    · exact ih.next_of_waiting hwaiting hstop hseen hquiet event
    · exact ih.next_of_ended hended event
    · exact ih.next_of_ended hended event

/-- A run that goes on is a run of what follows. -/
theorem run_append (s : Vigil) (rules : List Rule) (a b : List Event) :
    s.run rules (a ++ b) = (s.run rules a).run rules b :=
  List.foldl_append

/-- A monitor that comes to a checkpoint of a run that is neither over nor aborted has ended before
because of a rule, or does at this checkpoint what the rules say. -/
theorem monitor_checkpoint (hstop : .stop ∉ before) (habort : .abort ∉ history rules before)
    (elapsed : Span) (early : List Disturbance) (late : Nat → List Disturbance) :
    (∃ v, (start.run rules before).monitor = .ended (some v) ∧ Causes rules before v) ∨
      ((start.run rules before).next rules (.checkpoint elapsed early late)).monitor =
        settle (failure? rules elapsed late ((seen rules before).recordAll (recorded early))) := by
  have h := watched_run rules before
  rcases h.monitor with ⟨hwaiting, -⟩ | ⟨-, hover | hseen⟩ | hcause
  · have hflag : (start.run rules before).aborted = false := by
      rw [← Bool.not_eq_true, h.aborted, hwaiting]
      simp [habort]
    obtain ⟨hmonitor, -⟩ := Vigil.next_checkpoint rules elapsed early late hwaiting
    rw [hflag, h.recorder] at hmonitor
    exact .inr hmonitor
  · exact absurd hover hstop
  · exact absurd hseen.mem_history habort
  · exact .inl hcause

/-- A monitor names the rule that it has ended with. -/
theorem cause?_eq_some {m : Monitor} {v : RuleVerdict} :
    m.cause? = some v ↔ m = .ended (some v) := by
  cases m <;> simp [Monitor.cause?]

/-- Whatever the monitor does at a checkpoint, it is what the rest of the run leaves it at, if it
ends there. -/
theorem run_of_checkpoint {c : Option RuleVerdict} {event : Event}
    (h : ((start.run rules before).next rules event).monitor = .ended c) (after : List Event) :
    (start.run rules (before ++ event :: after)).monitor = .ended c := by
  rw [run_append]
  exact run_of_ended h after

/-- A monitor returns the verdict of the rule that causes the abort. -/
theorem cause?_iff (rules : List Rule) (events : List Event) (v : RuleVerdict) :
    (start.run rules events).monitor.cause? = some v ↔ Causes rules events v := by
  rw [cause?_eq_some]
  constructor
  · intro hv
    rcases (watched_run rules events).monitor with
      ⟨hwaiting, -⟩ | ⟨hended, -⟩ | ⟨v', hended, hcause⟩
    · rw [hwaiting] at hv
      cases hv
    · rw [hended] at hv
      cases hv
    · obtain rfl : v' = v := by simpa [hended] using hv
      exact hcause
  · rintro ⟨before, elapsed, early, late, after, k, rfl, hstop, habort, hquiet, hfails, hfirst⟩
    rcases monitor_checkpoint hstop habort elapsed early late with ⟨v', -, hcause⟩ | hmonitor
    · -- The rules are quiet before the checkpoint.
      obtain ⟨before', elapsed', early', late', after', k', hsplit, -, -, -, hfails', -⟩ := hcause
      exact absurd hfails' (hquiet before' elapsed' early' late' after' hsplit k' v')
    · rw [failure?_eq_some.2 ⟨k, hfails, hfirst⟩] at hmonitor
      exact run_of_checkpoint hmonitor after

/-- A monitor returns some verdict if any rule fails at any checkpoint that counts. -/
theorem exists_cause?_iff (rules : List Rule) (events : List Event) :
    (∃ v, (start.run rules events).monitor.cause? = some v) ↔
      ∃ before elapsed early late after k v,
        events = before ++ .checkpoint elapsed early late :: after ∧
        .stop ∉ before ∧ .abort ∉ history rules before ∧
        Fails rules before elapsed early late k v := by
  constructor
  · rintro ⟨v, hv⟩
    obtain ⟨before, elapsed, early, late, after, k, hsplit, hstop, habort, -, hfails, -⟩ :=
      (cause?_iff rules events v).1 hv
    exact ⟨before, elapsed, early, late, after, k, v, hsplit, hstop, habort, hfails⟩
  · rintro ⟨before, elapsed, early, late, after, k, v, rfl, hstop, habort, hfails⟩
    simp only [cause?_eq_some]
    rcases monitor_checkpoint hstop habort elapsed early late with ⟨v', hended, -⟩ | hmonitor
    · exact ⟨v', run_of_checkpoint (Vigil.next_of_ended rules hended _).1 after⟩
    · cases hfailure :
        failure? rules elapsed late ((seen rules before).recordAll (recorded early)) with
      | none => exact absurd hfails (failure?_eq_none.1 hfailure k v)
      | some v' =>
        rw [hfailure] at hmonitor
        exact ⟨v', run_of_checkpoint hmonitor after⟩

/-- A monitor is over if it was told so, has seen an abort or has caused one. -/
theorem isOver_iff (rules : List Rule) (events : List Event) :
    (start.run rules events).monitor.isOver = true ↔
      .stop ∈ events ∨ AbortSeen rules events ∨
        ∃ v, (start.run rules events).monitor.cause? = some v := by
  rcases (watched_run rules events).monitor with
    ⟨hwaiting, hstop, hseen, -⟩ | ⟨hended, hwhy⟩ | ⟨v, hended, -⟩
  · simp [hwaiting, hstop, hseen, Monitor.isOver, Monitor.cause?]
  · simpa [hended, Monitor.isOver, Monitor.cause?] using hwhy
  · simp [hended, Monitor.isOver, Monitor.cause?]

/-- **A monitor aborts the run exactly when it has to.**  For all rules, and whatever happens to the
run and in whichever order:

* the monitor returns a verdict exactly if it is the one of the first rule that fails at the first
  checkpoint at which one fails, before the run is over and before an abort that the monitor sees;
* it returns some verdict exactly if some rule fails at some checkpoint before these;
* the run is aborted exactly if somebody else has aborted it or the monitor has returned a verdict;
* the monitor has returned exactly if the run is over, it has seen an abort at a checkpoint, or it
  has returned a verdict.

To fail means that the rule is judged so by what is recorded when its turn comes, that it is meant
to abort the run, and that its delay is over (`Fails`). -/
theorem aborts_exactly (rules : List Rule) (events : List Event) :
    let s := start.run rules events
    (∀ v, s.monitor.cause? = some v ↔ Causes rules events v) ∧
      ((∃ v, s.monitor.cause? = some v) ↔
        ∃ before elapsed early late after k v,
          events = before ++ .checkpoint elapsed early late :: after ∧
          .stop ∉ before ∧ .abort ∉ history rules before ∧
          Fails rules before elapsed early late k v) ∧
      (s.aborted = true ↔ .abort ∈ history rules events ∨ ∃ v, s.monitor.cause? = some v) ∧
      (s.monitor.isOver = true ↔
        .stop ∈ events ∨ AbortSeen rules events ∨ ∃ v, s.monitor.cause? = some v) := by
  intro s
  refine ⟨cause?_iff rules events, exists_cause?_iff rules events, ?_, isOver_iff rules events⟩
  simp only [cause?_eq_some]
  exact (watched_run rules events).aborted

end Vigil

end LoadReplay
