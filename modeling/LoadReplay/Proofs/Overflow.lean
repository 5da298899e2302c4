import LoadReplay.Proofs.Scene
import Mathlib.Algebra.BigOperators.Group.List.Basic
import Mathlib.Algebra.GroupWithZero.Nat

/-!
# When the clock arithmetic of a scenario overflows

Spans end somewhere, and nothing bounds the durations of a scenario.  A controller adds up spans at
five places: at the end of the pause before its start, of its control loop, of a stage, and of a
control pause, and when it measures a ramp.  A sum beyond all spans ends it.

It measures a ramp before it takes any stage from it (`Loop.Measures`), and whoever can add up all
stages can add up the first ones.  So the ends of stages are safe (`Ramp.pointAt_ne_none`), and the
other four places are all that is left (`Controller.Timed`).

Main statement: `Scene.overflows_exactly`.
-/

namespace LoadReplay

/-! ## Sums of spans -/

namespace Span

/-- A length is out of range exactly if it has more nanoseconds than the longest one. -/
theorem ofNanos?_eq_none {n : Nat} : ofNanos? n = none ↔ maxNanos < n := by
  unfold ofNanos?
  split
  · rename_i h
    exact ⟨fun hn => (by cases hn), fun hlt => (by omega)⟩
  · rename_i h
    exact ⟨fun _ => (by omega), fun _ => rfl⟩

/-- A sum overflows exactly if its nanoseconds do. -/
theorem add?_eq_none {a b : Span} : a.add? b = none ↔ maxNanos < a.nanos + b.nanos :=
  ofNanos?_eq_none

/-- Adding up spans one after another fails exactly if their sum is out of range: no sum of the
first ones exceeds it. -/
theorem sum?_go (acc : Span) (l : List Span) :
    sum?.go acc l = ofNanos? (acc.nanos + (l.map (·.nanos)).sum) := by
  induction l generalizing acc with
  | nil =>
    rw [sum?.go, List.map_nil, List.sum_nil, Nat.add_zero, ofNanos?, dif_pos acc.le_max]
  | cons a rest ih =>
    rw [sum?.go, List.map_cons, List.sum_cons]
    cases hadd : acc.add? a with
    | none =>
      have hlt := add?_eq_none.1 hadd
      exact (ofNanos?_eq_none.2 (by omega)).symm
    | some b =>
      have hb := add?_eq_some hadd
      rw [Option.bind_some, ih, hb, Nat.add_assoc]

/-- A sum of many lengths overflows exactly if the sum of their nanoseconds does: no order of adding
helps. -/
theorem sum?_eq (l : List Span) : sum? l = ofNanos? (l.map (·.nanos)).sum := by
  rw [sum?, sum?_go, nanos_zero, Nat.zero_add]

end Span

namespace Ramp

variable {stages : List Stage}

/-- The length of all stages, in nanoseconds. -/
def totalNanos (stages : List Stage) : Nat := (stages.map (·.duration.nanos)).sum

/-- So does the length of a ramp. -/
theorem totalDuration?_eq (stages : List Stage) :
    totalDuration? stages = Span.ofNanos? (totalNanos stages) := by
  rw [totalDuration?, Span.sum?_eq, List.map_map]
  rfl

/-- A point of a ramp that can be measured is found, wherever it is. -/
theorem pointFrom_ne_none {α : Type} [Number.Scalar α] {shape : RampShape} {elapsed : Span}
    {previous index : Nat} {stageStart : Span}
    (h : stageStart.nanos + totalNanos stages ≤ maxNanos) :
    pointFrom α shape elapsed previous index stageStart stages ≠ none := by
  induction stages generalizing previous index stageStart with
  | nil => simp [pointFrom]
  | cons stage rest ih =>
    rw [totalNanos, List.map_cons, List.sum_cons] at h
    rw [pointFrom]
    cases hadd : stageStart.add? stage.duration with
    | none =>
      have hlt := Span.add?_eq_none.1 hadd
      omega
    | some stageEnd =>
      have hend := Span.add?_eq_some hadd
      by_cases hlt : elapsed < stageEnd
      · simp [hlt]
      · simp only [hlt, if_false]
        apply ih
        rw [hend, totalNanos]
        omega

/-- Where the length of a ramp is in range, so is the end of each of its stages. -/
theorem pointAt_ne_none {α : Type} [Number.Scalar α] {start : Nat} {shape : RampShape}
    {elapsed length : Span} (h : totalDuration? stages = some length) :
    pointAt α start stages shape elapsed ≠ none := by
  rw [totalDuration?_eq] at h
  apply pointFrom_ne_none
  rw [Span.nanos_zero, Nat.zero_add, ← Span.ofNanos?_eq_some h]
  exact length.le_max

end Ramp

/-! ## What a controller knows of its times -/

/-- Whether a pause that is about to work out its end is of a bounded length.  Only a pause of short
sleeps works out its end. -/
def Pause.OpensWithin (w : Waiting) (bound : Span) (p : Pause) : Prop :=
  ∀ length, p = .opening length → w = .polled ∧ length ≤ bound

/-- A pause begins within any bound on its length. -/
theorem Pause.opensWithin_start (w : Waiting) {length bound : Span} (h : length ≤ bound) :
    (start w length).OpensWithin w bound := by
  intro length' heq
  cases w with
  | polled =>
    cases heq
    exact ⟨rfl, h⟩
  | whole => cases heq

/-- The least of two lengths is no more than the first one. -/
theorem Span.least_le (a b : Span) : least a b ≤ a := by
  rw [le_def, nanos_least]
  exact Nat.min_le_left _ _

namespace Controller

/-- Whether a control loop is that of an executor, with its ramp measured. -/
def Loop.Measures (executor : Executor) : Loop → Prop
  | .untilTime _ => ∃ users duration, executor = .constantConcurrency users duration
  | .along start stages shape _ length =>
    executor = .rampingConcurrency start stages shape ∧ Ramp.totalDuration? stages = some length

/-- A loop that was begun never overflows when it decides. -/
theorem Loop.Measures.decide_ne_overflow {executor : Executor} {loop : Loop}
    (h : loop.Measures executor) (interval now : Span) : loop.decide interval now ≠ .overflow := by
  cases loop with
  | untilTime deadline =>
    rw [Loop.decide]
    split <;> exact fun hd => by cases hd
  | along start stages shape began length =>
    rw [Loop.decide]
    cases hpoint : Ramp.pointAt Float start stages shape (now - began) with
    | none => exact absurd hpoint (Ramp.pointAt_ne_none h.2)
    | some point =>
      simp only
      split <;> exact fun hd => by cases hd

/-- A control loop never waits for longer than its interval. -/
theorem Loop.pause_le {loop : Loop} {interval now pause : Span} {target : Option Nat}
    (h : loop.decide interval now = .goOn target pause) : pause ≤ interval := by
  cases loop with
  | untilTime deadline =>
    rw [Loop.decide] at h
    split at h
    · cases h
    · cases h
      exact Span.least_le _ _
  | along start stages shape began length =>
    rw [Loop.decide] at h
    cases hpoint : Ramp.pointAt Float start stages shape (now - began) with
    | none =>
      rw [hpoint] at h
      cases h
    | some point =>
      rw [hpoint] at h
      simp only at h
      split at h
      · cases h
      · cases h
        exact Span.least_le _ _

/-- What a controller knows of its times, in each phase. -/
def Timed (w : Waiting) (c : Controller) : Prop :=
  match c.phase with
  | .delaying p => c.crew.task = .none ∧ p.OpensWithin w c.post.scenario.startTime
  | .entering =>
    c.crew.task = .none ∧ ∀ n k, c.post.scenario.executor ≠ .fixedIterations n k
  | .deciding loop => loop.Measures c.post.scenario.executor
  | .scaling _ pause loop =>
    loop.Measures c.post.scenario.executor ∧ pause ≤ c.post.scenario.controlInterval
  | .ticking p loop =>
    loop.Measures c.post.scenario.executor ∧ p.OpensWithin w c.post.scenario.controlInterval
  | .crashed => c.crew.task = .none
  | _ => True

variable {w : Waiting} {now : Span} {c c' : Controller} {e : Effect}

/-- At first a controller knows how long the pause before its start is. -/
theorem timed_new (w : Waiting) (gens : Nat → Random.Generator) (post : Post) :
    (new w gens post).Timed w := by
  rw [new, Timed]
  cases post.scenario.startTime.isZero with
  | true => exact trivial
  | false => exact ⟨rfl, Pause.opensWithin_start w (Nat.le_refl _)⟩

/-- When all are joined, there is nothing to be known any more. -/
theorem timed_joined (c : Controller) (last : Bool) : (c.joined last).Timed w := by
  rw [joined]
  cases last with
  | false => exact trivial
  | true =>
    cases c.broken <;> exact trivial

/-- A loop that is entered measures the length of its executor. -/
theorem measures_of_loop? {loop : Loop} (h : c.loop? now = some loop) :
    loop.Measures c.post.scenario.executor := by
  rw [loop?] at h
  cases hx : c.post.scenario.executor with
  | fixedIterations =>
    rw [hx] at h
    cases h
  | constantConcurrency users duration =>
    rw [hx] at h
    obtain ⟨deadline, -, rfl⟩ := Option.map_eq_some_iff.1 h
    exact ⟨users, duration, rfl⟩
  | rampingConcurrency start stages shape =>
    rw [hx] at h
    obtain ⟨length, hlength, rfl⟩ := Option.map_eq_some_iff.1 h
    exact ⟨rfl, hlength⟩

/-- Each row of the table keeps what a controller knows of its times. -/
theorem Timed.acts (h : c.Timed w) (hidle : c.crew.task = .none) (ha : c.Acts w now c' e) :
    c'.Timed w := by
  have hrow := h
  rw [Timed] at hrow
  -- What is about to be added is bounded where it is computed; a pause that goes on has been opened
  -- before.
  cases ha with
  | rests | awaits => exact h
  | delays _ _ _ _ _ hp => exact ⟨hidle, fun length hl => absurd hl (hp length)⟩
  | startsRamp start stages shape _ hx =>
    exact ⟨hidle, fun n k hn => by cases hx.symm.trans hn⟩
  | recruited _ hx => exact ⟨hidle, hx⟩
  | overflows => exact hidle
  | enters loop _ hl => exact measures_of_loop? hl
  | aims loop target pause hphase hd =>
    rw [hphase] at hrow
    exact ⟨hrow, Loop.pause_le hd⟩
  | looks loop pause hphase hd =>
    rw [hphase] at hrow
    exact ⟨hrow, Pause.opensWithin_start w (Loop.pause_le hd)⟩
  | retires target pause loop hphase | spawns target pause loop hphase =>
    rw [hphase] at hrow
    rw [Timed]
    simp only [hphase, enrol]
    exact hrow
  | settles target pause loop hphase =>
    rw [hphase] at hrow
    exact ⟨hrow.1, Pause.opensWithin_start w hrow.2⟩
  | ticks _ _ loop _ hphase _ hp =>
    rw [hphase] at hrow
    exact ⟨hrow.1, fun length hl => absurd hl (hp length)⟩
  | ticked _ loop hphase =>
    rw [hphase] at hrow
    exact hrow.1
  | joinedAll last | breaks _ _ last => exact timed_joined _ last
  | _ => exact trivial

/-- Only a crew that is idle may have to stay so. -/
theorem Timed.of_crew (h : c.Timed w) {crew : Crew} {budget : Option Budget}
    (hidle : c.crew.task = .none → crew.task = .none) :
    ({ c with crew, budget } : Controller).Timed w := by
  rw [Timed] at h ⊢
  cases hphase : c.phase with
  | delaying p =>
    rw [hphase] at h
    exact ⟨hidle h.1, h.2⟩
  | entering =>
    rw [hphase] at h
    exact ⟨hidle h.1, h.2⟩
  | crashed =>
    rw [hphase] at h
    exact hidle h
  | _ =>
    rw [hphase] at h
    exact h

/-- So does every step of a controller. -/
theorem Timed.steps (h : c.Timed w) (hst : c.Steps w now c' e) : c'.Timed w := by
  cases hst with
  | acts hidle ha => exact h.acts hidle ha
  | works hbusy | started hbusy | joined _ hbusy =>
    exact h.of_crew fun hidle => absurd hidle hbusy
  | broken | refused => exact trivial

/-! ## Sums beyond all spans -/

/-- A sum that the next step of a controller works out is greater than any span. -/
inductive Exceeds (now : Span) (c : Controller) : Prop where
  /-- The end of the pause before the start. -/
  | delay (length : Span) (h : c.phase = .delaying (.opening length))
    (hsum : maxNanos < now.nanos + length.nanos)
  /-- The end of a control loop that has a duration. -/
  | deadline (users : Nat) (duration : Span) (h : c.phase = .entering)
    (hx : c.post.scenario.executor = .constantConcurrency users duration)
    (hsum : maxNanos < now.nanos + duration.nanos)
  /-- The length of a ramp. -/
  | total (start : Nat) (stages : List Stage) (shape : RampShape) (h : c.phase = .entering)
    (hx : c.post.scenario.executor = .rampingConcurrency start stages shape)
    (hsum : maxNanos < Ramp.totalNanos stages)
  /-- The end of a control pause. -/
  | tick (length : Span) (loop : Loop) (h : c.phase = .ticking (.opening length) loop)
    (hsum : maxNanos < now.nanos + length.nanos)

/-- Where a controller overflows, one of four sums does. -/
theorem Timed.exceeds (h : c.Timed w) (ho : c.Overflows now) : c.Exceeds now := by
  rw [Timed] at h
  cases ho with
  | delay length hphase ho => exact .delay length hphase (Span.add?_eq_none.1 ho)
  | tick length loop hphase ho => exact .tick length loop hphase (Span.add?_eq_none.1 ho)
  | stage loop hphase hd =>
    -- The ramp was measured.
    rw [hphase] at h
    exact absurd hd (h.decide_ne_overflow _ _)
  | loop hphase hl =>
    rw [hphase] at h
    rw [loop?] at hl
    cases hx : c.post.scenario.executor with
    | fixedIterations n k => exact absurd hx (h.2 n k)
    | constantConcurrency users duration =>
      rw [hx, Option.map_eq_none_iff] at hl
      exact .deadline users duration hphase hx (Span.add?_eq_none.1 hl)
    | rampingConcurrency start stages shape =>
      rw [hx, Option.map_eq_none_iff, Ramp.totalDuration?_eq] at hl
      exact .total start stages shape hphase hx (Span.ofNanos?_eq_none.1 hl)

/-- While its crew is in the middle of nothing, a controller acts. -/
theorem step_of_idle (hidle : c.crew.task = .none) (aborted : Bool) :
    c.step w now aborted = c.act w now aborted := by
  have h : c.crew.isIdle = true := by rw [Crew.isIdle, hidle]
  rw [step, if_pos h]

/-- Where one of the four sums overflows, the controller is ended by an error. -/
theorem Exceeds.crashes (h : c.Exceeds now) (aborted : Bool) :
    (c.act w now aborted).1.phase = .crashed := by
  cases h with
  | delay length hphase hsum =>
    simp only [act, hphase, Pause.step, Span.add?_eq_none.2 hsum, delayNext]
  | tick length loop hphase hsum =>
    simp only [act, hphase, Pause.step, Span.add?_eq_none.2 hsum, tickNext]
  | deadline users duration hphase hx hsum =>
    simp only [act, hphase, loop?, hx, Span.add?_eq_none.2 hsum, Option.map_none]
  | total start stages shape hphase hx hsum =>
    simp only [act, hphase, loop?, hx, Ramp.totalDuration?_eq, Span.ofNanos?_eq_none.2 hsum,
      Option.map_none]

/-- A controller crashes exactly when a sum exceeds all spans, and stays crashed. -/
theorem Timed.step_crashed_iff (h : c.Timed w) (aborted : Bool) :
    (c.step w now aborted).1.phase = .crashed ↔
      c.phase = .crashed ∨ c.crew.task = .none ∧ c.Exceeds now := by
  -- The phase changes to `crashed` by one rule only, and that rule says which sum was too great.
  constructor
  · intro hcrashed
    have hst := c.steps w now aborted
    generalize (c.step w now aborted).1 = c' at hst hcrashed
    generalize (c.step w now aborted).2 = e at hst
    cases hst with
    | broken | refused => cases hcrashed
    | works | started | joined => exact .inl hcrashed
    | acts hidle ha =>
      cases ha with
      | overflows ho => exact .inr ⟨hidle, h.exceeds ho⟩
      | rests | awaits => exact .inl hcrashed
      | retires | spawns => exact .inl hcrashed
      | joinedAll last | breaks _ _ last =>
        rw [Controller.joined] at hcrashed
        cases last with
        | false => cases hcrashed
        | true => cases hb : c.broken <;> simp [hb] at hcrashed
      | _ => cases hcrashed
  · rintro (hcrashed | ⟨hidle, hexceeds⟩)
    · rw [Timed, hcrashed] at h
      rw [step_of_idle h]
      simp only [act, hcrashed]
    · rw [step_of_idle hidle]
      exact hexceeds.crashes aborted

end Controller

/-- Whether the durations of a scenario leave room for all its sums, as long as the clock does not
go beyond a limit. -/
structure Scenario.HasRoom (s : Scenario) (w : Waiting) (limit : Span) : Prop where
  deadline : ∀ users duration, s.executor = .constantConcurrency users duration →
    limit.nanos + duration.nanos ≤ maxNanos
  stages : ∀ start stages shape, s.executor = .rampingConcurrency start stages shape →
    Ramp.totalNanos stages ≤ maxNanos
  /-- The ends of pauses are worked out where they consist of short sleeps. -/
  pauses : w = .polled → limit.nanos + s.startTime.nanos ≤ maxNanos ∧
    limit.nanos + s.controlInterval.nanos ≤ maxNanos

namespace Scene

variable {w : Waiting} {s : Scene}

/-- What a controller knows of its times is kept whatever is chosen. -/
theorem timed_next (h : s.controller.Timed w) (choice : Choice) :
    (s.next w choice).controller.Timed w := by
  cases s.next_turn w choice with
  | controller now hc =>
    rw [hc]
    exact h.steps (s.controller.steps w now s.aborted)
  | refuse hr =>
    rw [hr]
    have hidle : s.controller.crew.task = .none → s.crew.refuse.task = .none := by
      intro hidle
      rcases s.crew.refuse_cases with hsame | ⟨u, hlaunches, -⟩
      · rw [hsame]
        exact hidle
      · cases hlaunches.symm.trans hidle
    exact h.of_crew hidle
  | leave i _ hl =>
    rw [hl]
    exact h.of_crew fun hidle => ((s.controller.crew.task_leave i).1).trans hidle
  | users hu =>
    rw [hu.controller]
    exact h.of_crew fun hidle => hu.task.trans hidle

/-- It is kept in all runs. -/
theorem timed_run (w : Waiting) (gens : Nat → Random.Generator) (post : Post)
    (choices : List Choice) :
    ((start w gens post).run w choices).controller.Timed w :=
  run_induction w (p := fun s => s.controller.Timed w) (Controller.timed_new w gens post)
    (fun _ choice h => timed_next h choice) choices

/-- Only a step of the controller moves it to another phase. -/
theorem phase_next {choice : Choice} (h : ∀ now, choice ≠ .controller now) :
    (s.next w choice).controller.phase = s.controller.phase := by
  rw [controller_next w h]

/-- Whether a controller that gets its turn when the clock shows `now` crashes. -/
def CrashesAt (s : Scene) (now : Span) : Prop :=
  s.crew.task = .none ∧ s.controller.Exceeds now

/-- A controller is ended by an error in a step of its own, at a reading at which a sum overflows,
and stays so. -/
theorem next_crashed_iff (h : s.controller.Timed w) (choice : Choice) :
    (s.next w choice).controller.phase = .crashed ↔
      s.controller.phase = .crashed ∨ ∃ now, choice = .controller now ∧ s.CrashesAt now := by
  by_cases hchoice : ∃ now, choice = .controller now
  · obtain ⟨now, rfl⟩ := hchoice
    show (s.controller.step w now s.aborted).1.phase = .crashed ↔ _
    rw [h.step_crashed_iff s.aborted]
    simp [CrashesAt, crew]
  · have hne : ∀ now, choice ≠ .controller now := fun now hnow => hchoice ⟨now, hnow⟩
    rw [phase_next hne]
    refine ⟨.inl, fun hcrash => hcrash.resolve_right ?_⟩
    rintro ⟨now, hnow, -⟩
    exact hne now hnow

/-- A controller has crashed if and only if one of its turns made it crash. -/
theorem run_crashed_iff (h : s.controller.Timed w) (choices : List Choice) :
    (s.run w choices).controller.phase = .crashed ↔
      s.controller.phase = .crashed ∨ ∃ before now after,
        choices = before ++ .controller now :: after ∧ (s.run w before).CrashesAt now := by
  induction choices generalizing s with
  | nil =>
    refine ⟨.inl, fun hcrash => hcrash.resolve_right ?_⟩
    rintro ⟨before, now, after, hsplit, -⟩
    simp at hsplit
  | cons choice rest ih =>
    rw [run, List.foldl_cons, ← run, ih (timed_next h choice), next_crashed_iff h choice, or_assoc]
    refine or_congr_right ⟨?_, ?_⟩
    · rintro (⟨now, rfl, hcrashes⟩ | ⟨before, now, after, rfl, hcrashes⟩)
      · exact ⟨[], now, rest, rfl, hcrashes⟩
      · exact ⟨choice :: before, now, after, rfl, hcrashes⟩
    · rintro ⟨before, now, after, hsplit, hcrashes⟩
      cases before with
      | nil =>
        obtain ⟨rfl, rfl⟩ := List.cons.inj hsplit
        exact .inl ⟨now, rfl, hcrashes⟩
      | cons first before =>
        obtain ⟨rfl, rfl⟩ := List.cons.inj hsplit
        exact .inr ⟨before, now, after, rfl, hcrashes⟩

/-- Whether no sum that the controller works out in a run is greater than any span. -/
def SumsFit (w : Waiting) (s : Scene) (choices : List Choice) : Prop :=
  ∀ before now after, choices = before ++ .controller now :: after →
    ¬(s.run w before).CrashesAt now

/-- At first no controller was ended by an error. -/
theorem not_crashed_start (w : Waiting) (gens : Nat → Random.Generator) (post : Post) :
    (start w gens post).controller.phase ≠ .crashed := by
  show (Controller.new w gens post).phase ≠ .crashed
  rw [Controller.new]
  cases post.scenario.startTime.isZero <;> exact fun h => by cases h

/-- No sum overflows in a run exactly if the controller is not ended by an error. -/
theorem sumsFit_iff {gens : Nat → Random.Generator} {post : Post} {choices : List Choice} :
    (start w gens post).SumsFit w choices ↔
      ((start w gens post).run w choices).controller.phase ≠ .crashed := by
  rw [ne_eq, run_crashed_iff (Controller.timed_new w gens post),
    or_iff_right (not_crashed_start w gens post)]
  refine ⟨?_, fun hnone before now after hsplit hcrashes =>
    hnone ⟨before, now, after, hsplit, hcrashes⟩⟩
  rintro hfit ⟨before, now, after, hsplit, hcrashes⟩
  exact hfit before now after hsplit hcrashes

/-- **When the sums of a scenario overflow.**  At every moment of every run of every scenario:

* the controller has crashed if and only if, at one of its turns, the end of a pause, the end of its
  control loop or the length of its ramp was greater than any span;
* once it is in its control loop, the ends of stages never are;
* if the durations of the scenario leave room up to a moment that the clock never went beyond, the
  controller has not crashed. -/
theorem overflows_exactly (w : Waiting) (gens : Nat → Random.Generator) (post : Post)
    (choices : List Choice) :
    let s := (start w gens post).run w choices
    (s.controller.phase = .crashed ↔ ∃ before now after,
      choices = before ++ .controller now :: after ∧
        ((start w gens post).run w before).CrashesAt now) ∧
    (∀ loop now, s.controller.phase = .deciding loop →
      loop.decide post.scenario.controlInterval now ≠ .overflow) ∧
    ∀ limit, post.scenario.HasRoom w limit → (∀ now, .controller now ∈ choices → now ≤ limit) →
      s.controller.phase ≠ .crashed := by
  intro s
  have hcrashed : s.controller.phase = .crashed ↔ ∃ before now after,
      choices = before ++ .controller now :: after ∧
        ((start w gens post).run w before).CrashesAt now := by
    -- A controller does not begin as crashed, so the run has to come to it.
    have hstart : (start w gens post).controller.phase ≠ .crashed := by
      show (Controller.new w gens post).phase ≠ .crashed
      rw [Controller.new]
      cases post.scenario.startTime.isZero <;> exact fun h => by cases h
    have hrun := run_crashed_iff (Controller.timed_new w gens post) choices (s := start w gens post)
    rwa [or_iff_right hstart] at hrun
  refine ⟨hcrashed, fun loop now hphase => ?_, fun limit hroom hlimit hphase => ?_⟩
  · have htimed : s.controller.Timed w := timed_run w gens post choices
    rw [Controller.Timed, hphase] at htimed
    exact htimed.decide_ne_overflow _ _
  · obtain ⟨before, now, after, rfl, -, hexceeds⟩ := hcrashed.1 hphase
    have hnow : now.nanos ≤ limit.nanos := hlimit now (by simp)
    have htimed := timed_run w gens post before
    have hpost := run_post w gens post before
    rw [Controller.Timed] at htimed
    rw [hpost] at htimed
    -- Whichever sum it was, `HasRoom` says that it fits at any moment up to the limit.
    cases hexceeds with
    | delay length hp hsum =>
      rw [hp] at htimed
      obtain ⟨hw, hlength⟩ := htimed.2 length rfl
      have hend := (hroom.pauses hw).1
      rw [Span.le_def] at hlength
      omega
    | tick length loop hp hsum =>
      rw [hp] at htimed
      obtain ⟨hw, hlength⟩ := htimed.2 length rfl
      have hend := (hroom.pauses hw).2
      rw [Span.le_def] at hlength
      omega
    | deadline users duration hp hx hsum =>
      rw [hpost] at hx
      have hend := hroom.deadline users duration hx
      omega
    | total start stages shape hp hx hsum =>
      rw [hpost] at hx
      have hlength := hroom.stages start stages shape hx
      omega

/-- The greatest span. -/
def longest : Span := ⟨maxNanos, Nat.le_refl _⟩

/-- A ramp of two stages, each as long as possible. -/
def longRamp : Post :=
  { scenario := .new "ramp" (.rampingConcurrency 0 [⟨longest, 0⟩, ⟨longest, 0⟩] .step)
    groups := [] }

/-- One user for as long as possible. -/
def longStay : Post :=
  { scenario := .new "stay" (.constantConcurrency 1 longest), groups := [] }

/-- Both scenarios make sense, and both crash when their control loop is to begin: the ramp at any
moment, the other one as soon as the clock shows more than nothing. -/
theorem overflows_exactly_longest :
    longRamp.scenario.validate = .ok () ∧ longStay.scenario.validate = .ok () ∧
      ((start .polled (.seeded 0 "ramp") longRamp).run .polled
        [.controller .zero, .controller .zero]).controller.phase = .crashed ∧
      ((start .whole (.seeded 0 "stay") longStay).run .whole
        (List.replicate 8 (.controller .zero) ++ [.controller (.millis 1)])).controller.phase
          = .crashed := by
  refine ⟨rfl, rfl, ?_, ?_⟩
  · refine (overflows_exactly .polled (.seeded 0 "ramp") longRamp _).1.2
      ⟨[.controller .zero], .zero, [], rfl, rfl, .total 0 _ .step rfl rfl ?_⟩
    decide
  · refine (overflows_exactly .whole (.seeded 0 "stay") longStay _).1.2
      ⟨List.replicate 8 (.controller .zero), .millis 1, [], rfl, rfl,
        .deadline 1 longest rfl rfl ?_⟩
    decide

end Scene

end LoadReplay
