import LoadReplay.Proofs.ConstantConcurrency
import LoadReplay.Proofs.RampTimeline
import LoadReplay.Proofs.SampleTimes
import LoadReplay.Proofs.Scaling
import LoadReplay.Run.Nap
import Mathlib.Algebra.Order.Floor.Div

/-!
# Schedules of control loops

A control loop looks at the clock, decides, adjusts its crew if it follows a ramp, and waits: as
long as its interval, but never beyond its end.  So each wait but the last one takes the loop on by
a whole interval, and the number of waits that are over bounds from below what the clock shows
(`Schedule.due`).  This needs an interval that is not zero, and that the loop and its ramp agree on
where the end is (`Controller.Loop.OnSchedule.decide`).

`Schedule.Row` says what holds in each phase of the loop.  The three phases of the loop have one
lemma each for the step that is made in them: `Row.decides`, `Row.scales`, `Row.waits`.
-/

namespace LoadReplay

/-- How long the control loop of an executor is to last, in nanoseconds, if it has one. -/
def Executor.lasts? : Executor → Option Nat
  | .fixedIterations _ _ => none
  | .constantConcurrency _ duration => some duration.nanos
  | .rampingConcurrency _ stages _ => some (Ramp.totalNanos stages)

/-! ## Decisions of a control loop -/

/-- When a control loop begins, how long it is to last, and how often it is to look. -/
structure Schedule where
  began : Span
  /-- In nanoseconds. -/
  total : Nat
  interval : Span

namespace Schedule

variable {k : Schedule} {n : Nat} {now last wait : Span}

/-- When the loop is to end. -/
def finish (k : Schedule) : Nat := k.began.nanos + k.total

/-- How many ticks there are at most. -/
def most (k : Schedule) : Nat := k.total ⌈/⌉ k.interval.nanos

/-- What the clock shows at least when `n` ticks are over. -/
def due (k : Schedule) (n : Nat) : Nat := min (k.began.nanos + k.interval.nanos * n) k.finish

/-- Whether tick number `n` may be begun, at a moment and of a length. -/
structure Allows (k : Schedule) (n : Nat) (last wait : Span) : Prop where
  pos : 0 < wait.nanos
  le_interval : wait ≤ k.interval
  le_finish : last.nanos + wait.nanos ≤ k.finish
  more : n < k.most
  next : k.due (n + 1) ≤ last.nanos + wait.nanos

/-- Nothing is due before the beginning. -/
theorem began_le_due (k : Schedule) (n : Nat) : k.began.nanos ≤ k.due n := by
  rw [due, finish]
  omega

/-- Before the end, a tick of the length that is left, or of a whole interval, may be begun. -/
theorem allows_of_lt (hpos : 0 < k.interval.nanos) (hdue : k.due n ≤ now.nanos)
    (hlt : now.nanos < k.finish)
    (hwait : wait.nanos = min k.interval.nanos (k.finish - now.nanos)) : k.Allows n now wait := by
  rw [due] at hdue
  have hbegun : k.began.nanos + k.interval.nanos * n ≤ now.nanos := by omega
  have hmore : k.interval.nanos * n < k.total := by
    rw [finish] at hlt
    omega
  refine ⟨by omega, ?_, by omega, ((gc_mul_ceilDiv hpos).lt_iff_lt).2 hmore, ?_⟩
  · rw [Span.le_def]
    omega
  · rw [due, Nat.mul_succ]
    omega

end Schedule

namespace Controller

/-- Whether a control loop ends as a schedule says. -/
def Loop.OnSchedule (k : Schedule) : Loop → Prop
  | .untilTime deadline => deadline.nanos = k.finish
  | .along _ stages _ began length =>
    began = k.began ∧ length.nanos = k.total ∧ Ramp.totalDuration? stages = some length

variable {k : Schedule} {w : Waiting} {now : Span} {c : Controller}

/-- **A control loop ends exactly at the readings from its end on.**  Before, it waits for what is
left, or for its interval. -/
theorem Loop.OnSchedule.decide {loop : Loop} (h : loop.OnSchedule k) (hbegan : k.began ≤ now) :
    (k.finish ≤ now.nanos ∧ loop.decide k.interval now = .finish) ∨
      (now.nanos < k.finish ∧ ∃ target pause, loop.decide k.interval now = .goOn target pause ∧
        pause.nanos = min k.interval.nanos (k.finish - now.nanos)) := by
  -- Both kinds of loop end at the same moment, each by its own arithmetic.
  cases loop with
  | untilTime deadline =>
    replace h : deadline.nanos = k.finish := h
    rw [Loop.decide]
    by_cases hover : deadline ≤ now
    · rw [if_pos hover]
      rw [Span.le_def, h] at hover
      exact .inl ⟨hover, rfl⟩
    · rw [if_neg hover]
      rw [Span.le_def, h, Nat.not_le] at hover
      refine .inr ⟨hover, none, _, rfl, ?_⟩
      rw [Span.nanos_least, Span.nanos_sub, h]
  | along start stages shape began length =>
    obtain ⟨rfl, hlength, htotal⟩ := h
    rw [Span.le_def] at hbegan
    have hfinish : k.finish = k.began.nanos + length.nanos := by rw [hlength]; rfl
    have helapsed : (now - k.began).nanos = now.nanos - k.began.nanos := Span.nanos_sub _ _
    rw [Loop.decide]
    by_cases hover : length ≤ now - k.began
    · rw [Ramp.pointAt_of_le htotal hover]
      rw [Span.le_def] at hover
      exact .inl ⟨by omega, rfl⟩
    · have hlt : now - k.began < length := Nat.lt_of_not_le hover
      obtain ⟨i, stage, -, -, hpoint⟩ := Ramp.pointAt_of_lt Float start shape htotal hlt
      rw [hpoint]
      rw [Span.lt_def] at hlt
      refine .inr ⟨by omega, _, _, rfl, ?_⟩
      rw [Span.nanos_least, Span.nanos_sub]
      omega

/-- The control loop of a scenario is as long as its executor says. -/
theorem onSchedule_of_loop? {loop : Loop} {total : Nat}
    (hx : c.post.scenario.executor.lasts? = some total) (h : c.loop? now = some loop)
    (interval : Span) : loop.OnSchedule ⟨now, total, interval⟩ := by
  rw [loop?] at h
  cases hexecutor : c.post.scenario.executor with
  | fixedIterations =>
    rw [hexecutor] at h
    cases h
  | constantConcurrency users duration =>
    rw [hexecutor] at h hx
    obtain rfl := Option.some.inj hx
    obtain ⟨deadline, hadd, rfl⟩ := Option.map_eq_some_iff.1 h
    exact Span.add?_eq_some hadd
  | rampingConcurrency start stages shape =>
    rw [hexecutor] at h hx
    obtain rfl := Option.some.inj hx
    obtain ⟨length, hlength, rfl⟩ := Option.map_eq_some_iff.1 h
    exact ⟨rfl, (Ramp.totalNanos_eq hlength).symm, hlength⟩

end Controller

/-! ## Clocks that serve -/

/-- Whether a step of the controller is not made before a sleep of it is over. -/
def Event.Outlasts : Event → Event → Prop
  | .controller now (.sleeps d), .controller later _ => now.nanos + d.nanos ≤ later.nanos
  | _, _ => True

instance : DecidableRel Event.Outlasts
  | .controller now (.sleeps d), .controller later _ =>
    inferInstanceAs (Decidable (now.nanos + d.nanos ≤ later.nanos))
  | .controller _ (.sleeps _), .user .. | .user .., _ | .controller _ .nothing, _
  | .controller _ .spawns, _ | .controller _ (.aims _), _ | .controller _ (.joins _), _
  | .controller _ (.breaks _ _), _ => .isTrue trivial

namespace Scene

/-- Whether the controller slept as long as it was to sleep. -/
def RestsOut (s : Scene) : Prop := s.log.Pairwise Event.Outlasts

instance (s : Scene) : Decidable s.RestsOut := inferInstanceAs (Decidable (List.Pairwise _ _))

/-- Whether the controller has gone to sleep until a moment, if not before the beginning. -/
def SleptUntil (s : Scene) (t : Nat) : Prop :=
  t = 0 ∨ ∃ now d, Event.controller now (.sleeps d) ∈ s.log ∧ t = now.nanos + d.nanos

/-- Whether the clock never went back and, where the controller sleeps in one go, no sleep was too
short. -/
structure Served (w : Waiting) (s : Scene) : Prop where
  forward : s.Forward
  rests : w = .whole → s.RestsOut

variable {w : Waiting} {s : Scene} {now : Span}

/-- If the clock serves a run, it has served it before its last step, -/
theorem Served.of_next {choice : Choice} (h : (s.next w choice).Served w) : s.Served w := by
  refine ⟨h.forward.of_next, fun hw => ?_⟩
  have hrests := h.rests hw
  rw [RestsOut] at hrests ⊢
  rcases log_next (w := w) s choice with hlog | ⟨event, hlog⟩
  · rwa [hlog] at hrests
  · rw [hlog] at hrests
    exact (List.pairwise_append.1 hrests).1

/-- and in every part of it that leads there. -/
theorem Served.of_run {choices : List Choice} (h : (s.run w choices).Served w) : s.Served w := by
  induction choices generalizing s with
  | nil => exact h
  | cons choice rest ih =>
    have hnext : (s.next w choice).Served w := ih h
    exact hnext.of_next

/-- Whatever happens, time passes, and nothing is forgotten. -/
theorem Served.passes {choice : Choice} (h : (s.next w choice).Served w) :
    s.latest ≤ (s.next w choice).latest ∧ s.log ⊆ (s.next w choice).log := by
  rcases log_next (w := w) s choice with hlog | ⟨event, hlog⟩
  · have hreadings : (s.next w choice).readings = s.readings := congrArg (List.map Event.now) hlog
    rw [latest, latest, hreadings, hlog]
    exact ⟨Nat.le_refl _, List.Subset.refl _⟩
  · rw [latest_append hlog, hlog]
    exact ⟨h.forward.latest_le hlog, List.subset_append_left _ _⟩

/-- A controller whose crew is in the middle of nothing acts. -/
theorem controller_of_idle (hidle : s.crew.task = .none) :
    (s.next w (.controller now)).controller = (s.controller.act w now s.aborted).1 := by
  show (s.controller.step w now s.aborted).1 = _
  rw [Controller.step_of_idle hidle]

theorem log_controller (w : Waiting) (s : Scene) (now : Span) :
    (s.next w (.controller now)).log =
      s.log ++ [.controller now (s.controller.step w now s.aborted).2] := rfl

/-- A step of the controller reads the clock. -/
theorem latest_controller (w : Waiting) (s : Scene) (now : Span) :
    (s.next w (.controller now)).latest = now.nanos := latest_append (s.log_controller w now)

/-- Who sleeps in one go does not go on before. -/
theorem Served.slept_le (h : (s.next w (.controller now)).Served w) (hw : w = .whole) {t : Nat}
    (ht : s.SleptUntil t) : t ≤ now.nanos := by
  rcases ht with rfl | ⟨before, d, hmem, rfl⟩
  · exact Nat.zero_le _
  · have hrests := h.rests hw
    rw [RestsOut, log_controller] at hrests
    exact (List.pairwise_append.1 hrests).2.2 _ hmem _ (List.mem_singleton_self _)

end Scene

/-! ## What a schedule asks of each phase -/

/-- How long a pause is to be that has not begun. -/
def Pause.asked? : Pause → Option Span
  | .opening length | .whole length => some length
  | _ => none

namespace Pause

variable {p p' : Pause} {now : Span} {aborted : Bool}

/-- A pause begins only once. -/
theorem asked?_of_step
    (h : p.step now aborted = .goesOn p' ∨ ∃ d, p.step now aborted = .sleeps d p') :
    p'.asked? = none := by
  cases p with
  | opening length =>
    rw [step] at h
    cases hadd : now.add? length with
    | none =>
      rw [hadd] at h
      rcases h with h | ⟨d, h⟩ <;> cases h
    | some deadline =>
      rw [hadd] at h
      rcases h with h | ⟨d, h⟩ <;> cases h
      rfl
  | checking deadline | timing deadline | whole length =>
    rw [step] at h
    split at h
    · rcases h with h | ⟨d, h⟩ <;> cases h
    · rcases h with h | ⟨d, h⟩ <;> cases h
      rfl
  | _ => rcases h with h | ⟨d, h⟩ <;> cases h

/-- A pause that is cut short has looked at the flag. -/
theorem readsFlag_of_ends (h : p.step now aborted = .ends false) : p.readsFlag = true := by
  cases p with
  | opening length =>
    rw [step] at h
    split at h <;> cases h
  | timing deadline =>
    rw [step] at h
    split at h <;> cases h
  | glance | checking | whole => rfl
  | _ => cases h

end Pause

namespace Controller

/-- Whether a controller is in its control loop. -/
def isLooping (c : Controller) : Bool :=
  match c.phase with
  | .deciding _ | .scaling _ _ _ | .ticking _ _ => true
  | _ => false

/-- Whether the control loop was left. -/
def IsPast (c : Controller) : Prop :=
  match c.phase with
  | .closing | .telling _ | .joining _ _ | .reporting | .ended _ | .failed | .crashed => True
  | _ => False

variable {w : Waiting} {now : Span} {c c' : Controller} {e : Effect}

/-- A controller that closes has left its loop. -/
theorem isPast_of_closing (h : c.phase = .closing) : c.IsPast := by
  rw [IsPast, h]
  trivial

/-- Who has left the loop is not in it. -/
theorem IsPast.not_looping (h : c.IsPast) : c.isLooping = false := by
  rw [IsPast] at h
  rw [isLooping]
  cases hphase : c.phase with
  | deciding | scaling | ticking =>
    rw [hphase] at h
    exact h.elim
  | _ => rfl

/-- In a tick a controller goes on with its pause. -/
theorem step_of_ticking {p : Pause} {loop : Loop} (hidle : c.crew.task = .none)
    (hphase : c.phase = .ticking p loop) (aborted : Bool) :
    c.step w now aborted = c.tickNext loop (p.step now aborted) := by
  rw [step_of_idle hidle, act, hphase]

/-- A loop that was left is not entered again. -/
theorem IsPast.steps (h : c.IsPast) (hst : c.Steps w now c' e) : c'.IsPast := by
  have hrow := h
  rw [IsPast] at hrow
  cases hst with
  | works | started | joined => exact h
  | broken | refused => trivial
  | acts hidle ha =>
    cases ha with
    | skips | overflows | startsNone | recruitedFixed | finishes | finishesReaping | cuts | joins
    | closes | tells | told | reports => trivial
    | rests | awaits => exact h
    | joinedAll last | breaks _ _ last =>
      rw [joined]
      cases last with
      | false => trivial
      | true => cases c.broken <;> trivial
    | delays _ _ _ hphase | delayed _ hphase | startsFixed _ _ hphase | startsConstant _ _ hphase
    | startsRamp _ _ _ hphase | recruits _ hphase | recruited hphase | enters _ hphase
    | aims _ _ _ hphase | looks _ _ hphase | retires _ _ _ hphase | spawns _ _ _ hphase
    | settles _ _ _ hphase | ticks _ _ _ _ hphase | ticked _ _ hphase =>
      rw [hphase] at hrow
      exact hrow.elim

end Controller

namespace Schedule

open Controller (Loop)

/-- What holds in each phase when `n` ticks were begun and the loop has read `last`. -/
def Row (k : Schedule) (w : Waiting) (n : Nat) (last : Span) (s : Scene) : Prop :=
  match s.controller.phase with
  | .deciding loop => loop.OnSchedule k ∧ k.due n ≤ s.latest
  | .scaling _ pause loop => loop.OnSchedule k ∧ k.Allows n last pause ∧ last.nanos ≤ s.latest
  | .ticking p loop => loop.OnSchedule k ∧ (∀ wait, p.asked? = some wait → k.Allows n last wait) ∧
      ∃ awake t, s.SleptUntil awake ∧ p.EndsFrom w s.latest awake t ∧
        k.due (n + p.asked?.toList.length) ≤ t
  | .delaying _ | .starting | .recruiting _ | .entering => False
  | .closing | .telling _ | .joining _ _ | .reporting | .ended _ | .failed | .crashed => True

variable {k : Schedule} {w : Waiting} {n : Nat} {last now wait : Span} {s s' : Scene} {loop : Loop}
  {p : Pause}

/-- Behind the loop nothing is asked of the schedule. -/
theorem row_of_isPast (h : s.controller.IsPast) : k.Row w n last s := by
  rw [Controller.IsPast] at h
  rw [Row]
  cases hphase : s.controller.phase with
  | closing | telling | joining | reporting | ended | failed | crashed => trivial
  | _ =>
    rw [hphase] at h
    exact h.elim

/-- Time passes. -/
theorem Row.mono (h : k.Row w n last s) (hphase : s'.controller.phase = s.controller.phase)
    (hpasses : s.latest ≤ s'.latest ∧ s.log ⊆ s'.log) : k.Row w n last s' := by
  obtain ⟨hlate, hlog⟩ := hpasses
  rw [Row] at h ⊢
  rw [hphase]
  cases hrow : s.controller.phase with
  | deciding loop =>
    rw [hrow] at h
    exact ⟨h.1, h.2.trans hlate⟩
  | scaling target pause loop =>
    rw [hrow] at h
    exact ⟨h.1, h.2.1, h.2.2.trans hlate⟩
  | ticking p loop =>
    rw [hrow] at h
    obtain ⟨hloop, hasked, awake, t, hawake, hends, hdue⟩ := h
    refine ⟨hloop, hasked, awake, t, ?_, hends.mono hlate, hdue⟩
    exact hawake.imp_right fun ⟨before, d, hmem, ht⟩ => ⟨before, d, hlog hmem, ht⟩
  | _ =>
    rw [hrow] at h
    exact h

/-- A tick asks for the wait that was decided on. -/
theorem asked?_start (w : Waiting) (wait : Span) : (Pause.start w wait).asked? = some wait := by
  cases w <;> rfl

/-- A tick that the schedule allows is about to begin. -/
theorem row_of_start (hphase : s.controller.phase = .ticking (.start w wait) loop)
    (hloop : loop.OnSchedule k) (hallows : k.Allows n last wait) (hlast : last.nanos ≤ s.latest) :
    k.Row w n last s := by
  rw [Row, hphase]
  refine ⟨hloop, fun wait' hwait => ?_, 0, last.nanos + wait.nanos, .inl rfl, ?_, ?_⟩
  · rw [asked?_start] at hwait
    obtain rfl := Option.some.inj hwait
    exact hallows
  · have hends : last.nanos + wait.nanos ≤ s.latest + wait.nanos := Nat.add_le_add_right hlast _
    cases w with
    | polled => exact hends
    | whole => exact ⟨rfl, hends⟩
  · rw [asked?_start]
    exact hallows.next

/-! ## Steps in a control loop -/

/-- A look at the clock ends the loop if it is at or past its end, and not otherwise. -/
theorem Row.decides (h : k.Row w n last s)
    (hinterval : s.controller.post.scenario.controlInterval = k.interval)
    (hpos : 0 < k.interval.nanos) (hidle : s.crew.task = .none)
    (hphase : s.controller.phase = .deciding loop) (hlate : s.latest ≤ now.nanos) :
    (k.finish ≤ now.nanos ∧ (s.next w (.controller now)).controller.phase = .closing) ∨
      ((s.next w (.controller now)).controller.isLooping = true ∧
        k.Row w n now (s.next w (.controller now))) := by
  rw [Row, hphase] at h
  obtain ⟨hloop, hdue⟩ := h
  replace hdue := hdue.trans hlate
  have hbegan : k.began ≤ now := (k.began_le_due n).trans hdue
  have hstep : (s.next w (.controller now)).controller = (s.controller.decide w loop now).1 := by
    rw [Scene.controller_of_idle hidle, Controller.act, hphase]
  have hlatest := s.latest_controller w now
  rw [Controller.decide, hinterval] at hstep
  rcases hloop.decide hbegan with ⟨hover, hdecide⟩ | ⟨hlt, target, pause, hdecide, hpause⟩
  · rw [hdecide] at hstep
    exact .inl ⟨hover, by rw [hstep]⟩
  · have hallows : k.Allows n now pause := allows_of_lt hpos hdue hlt hpause
    refine .inr ?_
    -- A constant number of users goes straight to the next pause; a ramp scales first.
    cases target with
    | none =>
      rw [hdecide] at hstep
      refine ⟨by rw [Controller.isLooping, hstep], ?_⟩
      exact row_of_start (by rw [hstep]) hloop hallows (Nat.le_of_eq hlatest.symm)
    | some target =>
      rw [hdecide] at hstep
      refine ⟨by rw [Controller.isLooping, hstep], ?_⟩
      rw [Row, hstep]
      exact ⟨hloop, hallows, Nat.le_of_eq hlatest.symm⟩

/-- An adjustment of the crew goes on, or a tick is about to begin. -/
theorem Row.scales {target : Nat} (h : k.Row w n last s) (hidle : s.crew.task = .none)
    (hphase : s.controller.phase = .scaling target wait loop)
    (hserved : (s.next w (.controller now)).Served w) :
    (s.next w (.controller now)).controller.isLooping = true ∧
      k.Row w n last (s.next w (.controller now)) := by
  have hpasses := hserved.passes
  have hstep : (s.next w (.controller now)).controller = s.controller.scale w target wait loop :=
    s.controller.step_of_scaling w now s.aborted hidle hphase
  have hrow := h
  rw [Row, hphase] at hrow
  rcases s.controller.scale_cases w target wait loop with ⟨-, hscale⟩ | ⟨-, hscale⟩ | ⟨-, hscale⟩
  · have hsame : (s.next w (.controller now)).controller.phase = s.controller.phase := by
      rw [hstep, hscale]
    exact ⟨by rw [Controller.isLooping, hsame, hphase], h.mono hsame hpasses⟩
  · have hsame : (s.next w (.controller now)).controller.phase = s.controller.phase := by
      rw [hstep, hscale]
      rfl
    exact ⟨by rw [Controller.isLooping, hsame, hphase], h.mono hsame hpasses⟩
  · have hnext : (s.next w (.controller now)).controller.phase = .ticking (.start w wait) loop := by
      rw [hstep, hscale]
    refine ⟨by rw [Controller.isLooping, hnext], ?_⟩
    exact row_of_start hnext hrow.1 hrow.2.1 (hrow.2.2.trans hpasses.1)

/-- A tick goes on, or it is over, or it sees an abort, or its end lies beyond all spans. -/
theorem Row.waits (h : k.Row w n last s) (hidle : s.crew.task = .none)
    (hphase : s.controller.phase = .ticking p loop)
    (hserved : (s.next w (.controller now)).Served w) :
    ((s.aborted = true ∧ p.readsFlag = true) ∧
        (s.next w (.controller now)).controller.phase = .closing) ∨
      (s.next w (.controller now)).controller.phase = .crashed ∨
      ((s.next w (.controller now)).controller.isLooping = true ∧
        k.Row w (n + p.asked?.toList.length) last (s.next w (.controller now))) := by
  rw [Row, hphase] at h
  obtain ⟨hloop, hasked, awake, t, hawake, hends, hdue⟩ := h
  have hlatest := s.latest_controller w now
  have hlog := s.log_controller w now
  have hlate : s.latest ≤ now.nanos := by
    rw [← hlatest]
    exact hserved.passes.1
  have hboth : s.controller.step w now s.aborted =
      s.controller.tickNext loop (p.step now s.aborted) :=
    Controller.step_of_ticking hidle hphase s.aborted
  have hstep : (s.next w (.controller now)).controller =
      (s.controller.tickNext loop (p.step now s.aborted)).1 := congrArg Prod.fst hboth
  have heffect : (s.controller.step w now s.aborted).2 =
      (s.controller.tickNext loop (p.step now s.aborted)).2 := congrArg Prod.snd hboth
  -- A step of the pause can overflow, end it, go on or begin a sleep.
  cases hp : p.step now s.aborted with
  | overflows =>
    rw [hp] at hstep
    exact .inr (.inl (by rw [hstep]; rfl))
  | ends full =>
    rw [hp] at hstep
    cases full with
    | false =>
      exact .inl ⟨⟨Pause.aborted_of_ends hp, Pause.readsFlag_of_ends hp⟩, by rw [hstep]; rfl⟩
    | true =>
      refine .inr (.inr ⟨by rw [Controller.isLooping, hstep]; rfl, ?_⟩)
      rw [Row, hstep]
      refine ⟨hloop, hdue.trans ?_⟩
      rw [hlatest]
      exact hends.ends hlate (fun hw => hserved.slept_le hw hawake) hp
  | goesOn p' =>
    rw [hp] at hstep
    have hnone := Pause.asked?_of_step (.inl hp)
    refine .inr (.inr ⟨by rw [Controller.isLooping, hstep]; rfl, ?_⟩)
    rw [Row, hstep]
    refine ⟨hloop, fun wait hwait => ?_, awake, t, ?_, ?_, ?_⟩
    · cases hnone.symm.trans hwait
    · exact hawake.imp_right fun ⟨before, d, hmem, ht⟩ =>
        ⟨before, d, hserved.passes.2 hmem, ht⟩
    · rw [hlatest]
      exact hends.goesOn hlate hp
    · rw [hnone]
      exact hdue
  | sleeps d p' =>
    rw [hp] at hstep heffect
    have hnone := Pause.asked?_of_step (.inr ⟨d, hp⟩)
    refine .inr (.inr ⟨by rw [Controller.isLooping, hstep]; rfl, ?_⟩)
    rw [Row, hstep]
    refine ⟨hloop, fun wait hwait => ?_, now.nanos + d.nanos, t, .inr ⟨now, d, ?_, rfl⟩, ?_, ?_⟩
    · cases hnone.symm.trans hwait
    · rw [hlog, heffect]
      exact List.mem_concat_self
    · rw [hlatest]
      exact hends.sleeps hlate hp
    · rw [hnone]
      exact hdue

end Schedule

end LoadReplay
