import LoadReplay.Proofs.Haste
import LoadReplay.Proofs.Schedules

/-!
# Progress of control loops

A control loop looks at the clock, joins the users that are gone, brings its crew to a target if it
follows a ramp, and waits for its next tick.  Between two looks it begins one tick, so there are no
more looks than ticks, but for the last one.  And between two looks there is only so much to do: as
long as the controller neither looks nor sleeps, each of its steps takes it nearer to where it does,
or out of the loop.

## Shape of the proof

`Controller.stir` bounds the steps that are still to be made.  What the crew is in the middle of is
bounded by `Crew.errands`, whatever comes after it.  How many users are to be told to retire or to
be started is not known before it is seen which ones are gone, so `Crew.adjustments` assumes the
worst of both until then.  `Controller.advances` is the step of the controller; nobody else makes
its way longer (`Scene.stir_other`).

Main statements: `Scene.stirs`, `Scene.countLooks_le`.
-/

namespace LoadReplay

/-! ## What a crew has still to do -/

namespace Crew

/-- How many steps a crew makes at most until it is in the middle of nothing. -/
def errands (c : Crew) : Nat :=
  match c.task with
  | .none => 0
  | .addsActive _ => 6
  | .addsRunning _ => 5
  | .raisesPeak _ _ => 4
  | .addsSpawned _ => 3
  -- A thread that cannot be started is taken out of both counts again.
  | .launches _ | .dropsNewActive => 2
  | .dropsNewRunning | .dropsActive => 1
  | .inspects .live unseen gone _ => 2 * unseen.length + gone.length + 2 * c.draining.length + 4
  | .joins .live gone => gone.length + 2 * c.draining.length + 3
  | .inspects .draining unseen gone _ => 2 * unseen.length + gone.length + 2
  | .joins .draining gone => gone.length + 1

/-- How many live users a crew has at most when it is in the middle of nothing. -/
def expected (c : Crew) : Nat :=
  match c.task with
  | .inspects .live unseen _ left => unseen.length + left.length
  | .addsActive _ | .addsRunning _ | .raisesPeak _ _ | .addsSpawned _ | .launches _
  | .dropsNewActive | .dropsNewRunning => c.live.length + 1
  | _ => c.live.length

/-- Whether it is being looked which users are gone. -/
def isReaping (c : Crew) : Bool :=
  match c.task with
  | .inspects .. | .joins .. => true
  | _ => false

/-- How many steps it takes at most to bring a crew to a target when it is in the middle of nothing:
two for each user that is to retire, seven for each one that is to be started, and one to see that
it is done. -/
def adjustments (target : Nat) (c : Crew) : Nat :=
  if c.isReaping then 2 * c.expected + 7 * target + 1
  else 2 * (c.expected - target) + 7 * (target - c.expected) + 1

variable {c c' : Crew} {o : Outcome} {target : Nat}

/-- A crew in the middle of nothing has no errands. -/
theorem errands_of_idle (h : c.task = .none) : c.errands = 0 := by rw [errands, h]

/-- A crew in the middle of nothing has its difference to the target to make up. -/
theorem adjustments_of_idle (h : c.task = .none) :
    c.adjustments target = 2 * (c.live.length - target) + 7 * (target - c.live.length) + 1 := by
  have hreaping : c.isReaping = false := by rw [isReaping, h]
  have hexpected : c.expected = c.live.length := by rw [expected, h]
  rw [adjustments, hreaping, hexpected]
  rfl

/-- Nothing but the task and the numbers of users counts. -/
theorem errands_congr (htask : c'.task = c.task) (hlive : c'.live = c.live)
    (hdraining : c'.draining = c.draining) (target : Nat) :
    c'.errands = c.errands ∧ c'.adjustments target = c.adjustments target := by
  rw [errands, errands, adjustments, adjustments, isReaping, isReaping, expected, expected, htask,
    hlive, hdraining]
  exact ⟨rfl, rfl⟩

/-- Each step of what a crew is in the middle of takes it nearer to the end of it, and leaves no
more to be done after it, unless a user has failed. -/
theorem Works.errands_lt (hw : c.Works c' o) (hbusy : c.task ≠ .none) (target : Nat) :
    (∃ i rest, o = .broken i rest) ∨ o = .refused ∨
      (c'.errands < c.errands ∧ c'.adjustments target ≤ c.adjustments target) := by
  -- Every step of a crew does an errand, and none makes more to adjust; or the crew gives up.
  cases hw with
  | idle h => exact absurd h hbusy
  | breaks roll i gone => exact .inl ⟨i, gone, rfl⟩
  | dropsNewRunning => exact .inr (.inl rfl)
  | launches u h =>
    refine .inr (.inr ⟨by simp [errands, h, launch], ?_⟩)
    simp [adjustments, isReaping, expected, h, launch]
  | addsActive u h | addsRunning u h | raisesPeak u _ h | addsSpawned u h | dropsNewActive h
  | dropsActive h =>
    exact .inr (.inr ⟨by simp [errands, h], by simp [adjustments, isReaping, expected, h]⟩)
  | seesGone roll i unseen gone left h =>
    refine .inr (.inr ?_)
    cases roll <;>
      simp only [errands, adjustments, isReaping, expected, h, List.length_cons, List.length_append,
        List.length_nil, if_true] <;> omega
  | seesLeft roll i unseen gone left h =>
    refine .inr (.inr ?_)
    cases roll <;>
      simp only [errands, adjustments, isReaping, expected, h, List.length_cons, List.length_append,
        List.length_nil, if_true] <;> omega
  | parts roll gone left h =>
    refine .inr (.inr ?_)
    cases roll <;>
      simp only [errands, adjustments, isReaping, expected, h, setRoll, List.length_nil,
        if_true] <;> omega
  | joins roll i gone c'' h hj =>
    obtain ⟨r, -, rfl⟩ := Option.map_eq_some_iff.1 hj
    refine .inr (.inr ?_)
    cases roll <;>
      simp only [errands, adjustments, isReaping, expected, h, List.length_cons, if_true] <;> omega
  | turns h =>
    refine .inr (.inr ?_)
    simp only [errands, adjustments, isReaping, expected, h, List.length_nil, if_true]
    omega
  | ends h =>
    refine .inr (.inr ?_)
    simp only [errands, adjustments, isReaping, expected, h, List.length_nil, if_true,
      Bool.false_eq_true, if_false]
    omega

/-- A thread that cannot be started makes nothing longer. -/
theorem errands_refuse (c : Crew) :
    c.refuse.errands ≤ c.errands ∧ c.refuse.adjustments target ≤ c.adjustments target := by
  rcases c.refuse_cases with h | ⟨u, htask, h⟩ <;> rw [h]
  · exact ⟨Nat.le_refl _, Nat.le_refl _⟩
  · simp [errands, adjustments, isReaping, expected, htask]

/-- Telling a user to retire takes one step, and counting it down at most another one. -/
theorem errands_retireNewest (hidle : c.task = .none) (hmore : target < c.live.length) :
    c.retireNewest.errands + c.retireNewest.adjustments target < c.adjustments target := by
  obtain ⟨front, i, hlive⟩ := List.eq_nil_or_concat' c.live |>.resolve_left
    (List.ne_nil_of_length_pos (Nat.zero_lt_of_lt hmore))
  have hlength : c.live.length = front.length + 1 := by rw [hlive, List.length_append]; rfl
  rw [retireNewest_of_live hlive, adjustments_of_idle hidle]
  set told := ({ c with live := front, draining := c.draining ++ [i] } : Crew).tell i with htold
  have hkept : told.live = front := rfl
  have htask : told.task = .none ∨ told.task = .dropsActive := by
    rw [htold, task_tell]
    cases isRetired _ i
    · exact .inr rfl
    · exact .inl rfl
  rcases htask with htask | htask
  · rw [errands_of_idle htask, adjustments_of_idle htask, hkept]
    omega
  · simp only [errands, adjustments, isReaping, expected, htask, hkept, Bool.false_eq_true,
      if_false]
    omega

/-- Starting a user takes seven steps. -/
theorem errands_enrol (hidle : c.task = .none) (hfewer : c.live.length < target) (u : User) :
    (c.enrol u).errands + (c.enrol u).adjustments target < c.adjustments target := by
  rw [adjustments_of_idle hidle]
  simp only [errands, adjustments, isReaping, expected, enrol, Bool.false_eq_true, if_false]
  omega

end Crew

/-! ## Looks and ticks -/

namespace Controller

/-- Whether the next step reads the clock for the control loop. -/
def looks (c : Controller) : Bool := c.crew.isIdle && c.phase matches .deciding _

/-- How long the tick is to wait that the next step begins. -/
def asks? (c : Controller) : Option Span :=
  if c.crew.isIdle then
    match c.phase with
    | .ticking p _ => p.asked?
    | _ => none
  else none

/-- Whether the next step looks at the abort flag for a tick. -/
def mindsFlag (c : Controller) : Bool :=
  c.crew.isIdle && match c.phase with
  | .ticking p _ => p.readsFlag
  | _ => false

/-- A tick of a control loop. -/
structure Tick where
  /-- What the clock showed when the loop looked at it last. -/
  asked : Span
  wait : Span
  deriving DecidableEq

/-- Whether the loop has looked at the clock and has not begun a tick since. -/
def owesTick (c : Controller) : Bool :=
  match c.phase with
  | .scaling _ _ _ => true
  | .ticking p _ => p.asked?.isSome
  | _ => false

/-- How many steps a controller makes at most in its control loop before it looks at the clock, goes
to sleep, or leaves the loop. -/
def stir (c : Controller) : Nat :=
  c.crew.errands + match c.phase with
  | .scaling target _ _ => c.crew.adjustments target + 3
  | .ticking p _ => p.stepsLeft
  | _ => 0

variable {w : Waiting} {now : Span} {aborted : Bool} {c c' : Controller} {e : Effect}
  {loop : Loop} {p : Pause}

/-- A controller that is about to look owes no tick. -/
theorem looks_add_owesTick_le (c : Controller) : c.looks.toNat + c.owesTick.toNat ≤ 1 := by
  rw [looks, owesTick]
  cases c.phase with
  | deciding loop => cases c.crew.isIdle <;> simp
  | scaling target pause loop => simp
  | ticking p loop => simp [Bool.toNat_le]
  | _ => simp

/-- A tick is owed until it begins. -/
theorem owesTick_start {pause : Span} (h : c.phase = .ticking (.start w pause) loop) :
    c.owesTick = true := by
  rw [owesTick, h]
  show (Pause.start w pause).asked?.isSome = true
  rw [Schedule.asked?_start]
  rfl

/-- What a step of a control loop brings about that does not leave it. -/
structure Advances (c c' : Controller) (e : Effect) : Prop where
  loops : c'.isLooping = true
  /-- A look at the clock is followed by one tick. -/
  owes : c.looks.toNat + c.owesTick.toNat = c.asks?.toList.length + c'.owesTick.toNat
  /-- A step that is no look and does not sleep makes the way to the next one shorter. -/
  nearer : c.looks = true ∨ (∃ d, e = .sleeps d) ∨ c'.stir < c.stir

/-- A controller whose crew is in the middle of something is nearer to the end of it. -/
theorem Steps.advances_of_busy (hst : c.Steps w now c' e) (hloops : c.isLooping = true)
    (hbusy : c.crew.task ≠ .none) : c'.IsPast ∨ c.Advances c' e := by
  have hidle : c.crew.isIdle = false := Bool.eq_false_iff.2 fun h => hbusy (Crew.task_of_isIdle h)
  have hlooks : c.looks = false := by rw [looks, hidle, Bool.false_and]
  have hasks : c.asks? = none := by rw [asks?, hidle]; rfl
  -- The phase stays, so only the work that the crew has left changes.
  have hgoesOn {crew : Crew} {e : Effect} {o : Crew.Outcome} (hw : c.crew.Works crew o)
      (hbroken : ∀ i rest, o ≠ .broken i rest) (hrefused : o ≠ .refused) :
      c.Advances { c with crew } e := by
    have hnearer (target : Nat) : crew.errands < c.crew.errands ∧
        crew.adjustments target ≤ c.crew.adjustments target := by
      rcases hw.errands_lt hbusy target with ⟨i, rest, ho⟩ | ho | h
      · exact absurd ho (hbroken i rest)
      · exact absurd ho hrefused
      · exact h
    refine ⟨hloops, ?_, .inr (.inr ?_)⟩
    · rw [hlooks, hasks]
      rfl
    · rw [stir, stir]
      cases c.phase with
      | scaling target pause loop =>
        exact Nat.add_lt_add_of_lt_of_le (hnearer target).1
          (Nat.add_le_add_right (hnearer target).2 3)
      | _ => exact Nat.add_lt_add_right (hnearer 0).1 _
  cases hst with
  | acts h => exact absurd h hbusy
  | works _ hw | started _ hw | joined _ _ hw =>
    exact .inr (hgoesOn hw (fun _ _ h => by cases h) fun h => by cases h)
  | broken | refused => exact .inl (isPast_of_closing rfl)

/-- A look at the clock ends the loop, or a tick is owed from then on. -/
theorem advances_deciding (hidle : c.crew.task = .none) (hphase : c.phase = .deciding loop) :
    (c.decide w loop now).1.IsPast ∨ c.Advances (c.decide w loop now).1 e := by
  have hnothing : c.crew.isIdle = true := by rw [Crew.isIdle, hidle]
  have hlooks : c.looks = true := by rw [looks, hnothing, hphase]; rfl
  have howes : c.owesTick = false := by rw [owesTick, hphase]
  have hasks : c.asks? = none := by rw [asks?, hphase]; split <;> rfl
  rw [decide]
  cases loop.decide c.post.scenario.controlInterval now with
  | overflow => exact .inl trivial
  | finish => exact .inl trivial
  | goOn target pause =>
    right
    cases target with
    | some target => exact ⟨rfl, by rw [hlooks, howes, hasks]; rfl, .inl hlooks⟩
    | none => exact ⟨rfl, by rw [hlooks, howes, hasks, owesTick_start rfl]; rfl, .inl hlooks⟩

/-- An adjustment of the crew leaves fewer to be made, and in the end the tick begins. -/
theorem advances_scaling {target : Nat} {pause : Span} (hidle : c.crew.task = .none)
    (hphase : c.phase = .scaling target pause loop) :
    c.Advances (c.scale w target pause loop) e := by
  have hlooks : c.looks = false := by rw [looks, hphase, Bool.and_false]
  have howes : c.owesTick = true := by rw [owesTick, hphase]
  have hasks : c.asks? = none := by rw [asks?, hphase]; split <;> rfl
  have hstir : c.stir = c.crew.adjustments target + 3 := by
    rw [stir, hphase, Crew.errands_of_idle hidle, Nat.zero_add]
  have hgoesOn {crew : Crew} (hnearer : crew.errands + crew.adjustments target <
      c.crew.adjustments target) : c.Advances { c with crew } e := by
    refine ⟨by rw [isLooping, hphase], ?_, .inr (.inr ?_)⟩
    · rw [hlooks, howes, hasks, owesTick, hphase]
      rfl
    · rw [hstir, stir, hphase, ← Nat.add_assoc]
      exact Nat.add_lt_add_right hnearer 3
  rcases c.scale_cases w target pause loop with ⟨hmore, h⟩ | ⟨⟨hfewer, -⟩, h⟩ | ⟨-, h⟩ <;> rw [h]
  · exact hgoesOn (Crew.errands_retireNewest hidle hmore)
  · exact hgoesOn (Crew.errands_enrol hidle hfewer _)
  · refine ⟨rfl, by rw [hlooks, howes, hasks, owesTick_start rfl]; rfl, .inr (.inr ?_)⟩
    · have hstart : (Pause.start w pause).stepsLeft ≤ 3 := by
        cases w
        · exact Nat.le_refl 3
        · exact Nat.le_succ 2
      rw [hstir, stir, Crew.errands_of_idle hidle, Nat.zero_add, Crew.adjustments_of_idle hidle]
      show (Pause.start w pause).stepsLeft < _
      omega

/-- A tick goes on, or sleeps, or it is over and the next look is due. -/
theorem advances_ticking (hidle : c.crew.task = .none) (hphase : c.phase = .ticking p loop) :
    (c.tickNext loop (p.step now aborted)).1.IsPast ∨
      c.Advances (c.tickNext loop (p.step now aborted)).1
        (c.tickNext loop (p.step now aborted)).2 := by
  have hnothing : c.crew.isIdle = true := by rw [Crew.isIdle, hidle]
  have hlooks : c.looks = false := by rw [looks, hphase, Bool.and_false]
  have howes : c.owesTick = p.asked?.isSome := by rw [owesTick, hphase]
  have hasks : c.asks? = p.asked? := by rw [asks?, hnothing, hphase]; rfl
  have hlength : p.asked?.isSome.toNat = p.asked?.toList.length := by cases p.asked? <;> rfl
  have hstir : c.stir = p.stepsLeft := by
    rw [stir, hphase, Crew.errands_of_idle hidle, Nat.zero_add]
  cases hp : p.step now aborted with
  | overflows => exact .inl trivial
  | ends full =>
    cases full with
    | false => exact .inl trivial
    | true =>
      -- A pause that has its full length was begun before.
      have hnone : p.asked? = none := by
        cases p with
        | opening length =>
          rw [Pause.step] at hp
          split at hp <;> cases hp
        | whole length => cases aborted <;> cases hp
        | _ => rfl
      refine .inr ⟨rfl, by rw [hlooks, howes, hasks, hnone]; rfl, .inr (.inr ?_)⟩
      rw [hstir, stir]
      show c.crew.errands + 0 < _
      rw [Crew.errands_of_idle hidle]
      exact p.stepsLeft_pos
  | goesOn p' =>
    have hnone := Pause.asked?_of_step (.inl hp)
    refine .inr ⟨rfl, ?_, .inr (.inr ?_)⟩
    · rw [hlooks, howes, hasks, hlength]
      show 0 + _ = _ + p'.asked?.isSome.toNat
      rw [hnone, Nat.zero_add]
      rfl
    · rw [hstir, stir]
      show c.crew.errands + p'.stepsLeft < _
      rw [Crew.errands_of_idle hidle, Nat.zero_add]
      exact Pause.stepsLeft_of_goesOn hp
  | sleeps d p' =>
    have hnone := Pause.asked?_of_step (.inr ⟨d, hp⟩)
    refine .inr ⟨rfl, ?_, .inr (.inl ⟨d, rfl⟩)⟩
    rw [hlooks, howes, hasks, hlength]
    show 0 + _ = _ + p'.asked?.isSome.toNat
    rw [hnone, Nat.zero_add]
    rfl

/-- **Each step of a control loop gets it on**, or it leaves the loop. -/
theorem advances (hloops : c.isLooping = true) (w : Waiting) (now : Span) (aborted : Bool) :
    (c.step w now aborted).1.IsPast ∨
      c.Advances (c.step w now aborted).1 (c.step w now aborted).2 := by
  by_cases hidle : c.crew.task = .none
  · rw [isLooping] at hloops
    rw [step_of_idle hidle]
    cases hphase : c.phase with
    | deciding loop =>
      rw [act, hphase]
      exact advances_deciding hidle hphase
    | scaling target pause loop =>
      rw [act, hphase]
      exact .inr (advances_scaling hidle hphase)
    | ticking p loop =>
      rw [act, hphase]
      exact advances_ticking hidle hphase
    | _ =>
      rw [hphase] at hloops
      cases hloops
  · exact (c.steps w now aborted).advances_of_busy hloops hidle

/-- A loop that was left looks no more and owes nothing. -/
theorem IsPast.quiet (h : c.IsPast) : c.looks = false ∧ c.owesTick = false := by
  rw [IsPast] at h
  rw [looks, owesTick]
  cases hphase : c.phase with
  | deciding | scaling | ticking =>
    rw [hphase] at h
    exact h.elim
  | _ => exact ⟨Bool.and_false _, rfl⟩

end Controller

/-! ## Runs -/

namespace Scene

open Controller (Tick)

/-- The tick that is begun by what happens next; `last` is what the control loop has read last. -/
def tick? (s : Scene) (last : Span) : Choice → Option Tick
  | .controller _ => s.controller.asks?.map (Tick.mk last)
  | _ => none

/-- What the control loop has read last when it has happened. -/
def looked (s : Scene) (last : Span) : Choice → Span
  | .controller now => if s.controller.looks then now else last
  | _ => last

/-- The ticks that are begun in a run. -/
def ticks (w : Waiting) (s : Scene) (last : Span) : List Choice → List Tick
  | [] => []
  | choice :: rest =>
    (s.tick? last choice).toList ++ (s.next w choice).ticks w (s.looked last choice) rest

/-- How often the control loop looks at the clock in a run. -/
def countLooks (w : Waiting) (s : Scene) : List Choice → Nat
  | [] => 0
  | choice :: rest =>
    (choice.isController && s.controller.looks).toNat + (s.next w choice).countLooks w rest

variable {w : Waiting} {s : Scene}

/-- Behind the loop no look is counted. -/
theorem countLooks_of_isPast (h : s.controller.IsPast) (choices : List Choice) :
    s.countLooks w choices = 0 := by
  induction choices generalizing s with
  | nil => rfl
  | cons choice rest ih =>
    have hnext : (s.next w choice).controller.IsPast := by
      by_cases hcontroller : ∃ now, choice = .controller now
      · obtain ⟨now, rfl⟩ := hcontroller
        exact h.steps (s.controller.steps w now s.aborted)
      · rw [Controller.IsPast, phase_next fun now hc => hcontroller ⟨now, hc⟩]
        exact h
    rw [countLooks, h.quiet.1, Bool.and_false, ih hnext]
    rfl

/-- **No more looks than ticks**, but for one. -/
theorem countLooks_le (hloops : s.controller.isLooping = true) (last : Span)
    (choices : List Choice) : s.countLooks w choices + s.controller.owesTick.toNat ≤
      (s.ticks w last choices).length + 1 := by
  -- On the rest of the run; a look and the tick that it leads to are paired off by `owesTick`.
  induction choices generalizing s last with
  | nil =>
    have := Bool.toNat_le s.controller.owesTick
    rw [countLooks, ticks, List.length_nil]
    omega
  | cons choice rest ih =>
    rw [countLooks, ticks, List.length_append]
    -- Steps of others neither look nor tick, and leave the phase alone.
    by_cases hcontroller : ∃ now, choice = .controller now
    · obtain ⟨now, rfl⟩ := hcontroller
      have hlength : (s.tick? last (.controller now)).toList.length =
          s.controller.asks?.toList.length := by
        rw [tick?]
        cases s.controller.asks? <;> rfl
      rw [hlength, show Choice.isController (.controller now) = true from rfl, Bool.true_and]
      rcases Controller.advances hloops w now s.aborted with hpast | hadvances
      · have hlooks : (s.next w (.controller now)).countLooks w rest = 0 :=
          countLooks_of_isPast hpast rest
        have := s.controller.looks_add_owesTick_le
        omega
      · have hrest := ih (s := s.next w (.controller now)) hadvances.loops
          (s.looked last (.controller now))
        have howes : s.controller.looks.toNat + s.controller.owesTick.toNat =
            s.controller.asks?.toList.length +
              (s.next w (.controller now)).controller.owesTick.toNat := hadvances.owes
        omega
    · have hother (now : Span) : choice ≠ .controller now := fun hc => hcontroller ⟨now, hc⟩
      have hphase := phase_next (w := w) (s := s) hother
      have hnone : choice.isController = false := by
        cases choice with
        | controller now => exact absurd rfl (hother now)
        | _ => rfl
      have howes : (s.next w choice).controller.owesTick = s.controller.owesTick := by
        rw [Controller.owesTick, Controller.owesTick, hphase]
      have hrest := ih (s := s.next w choice)
        (by rw [Controller.isLooping, hphase]; exact hloops) (s.looked last choice)
      rw [howes] at hrest
      rw [hnone, Bool.false_and, Bool.toNat_false]
      omega

/-- Nobody but the controller makes its way longer. -/
theorem stir_other {choice : Choice} (h : ∀ now, choice ≠ .controller now) :
    (s.next w choice).controller.stir ≤ s.controller.stir := by
  have hcrew (target : Nat) : (s.next w choice).crew.errands ≤ s.crew.errands ∧
      (s.next w choice).crew.adjustments target ≤ s.crew.adjustments target := by
    rcases next_cases w s choice with ⟨now, rfl⟩ | rfl | ⟨i, rfl, hi⟩ | hu
    · exact absurd rfl (h now)
    · exact s.crew.errands_refuse
    · rw [next, hi]
      obtain ⟨htask, hlive, hdraining⟩ := s.crew.task_leave i
      have hsame := Crew.errands_congr htask hlive hdraining target
      exact ⟨Nat.le_of_eq hsame.1, Nat.le_of_eq hsame.2⟩
    · have hsame := Crew.errands_congr hu.task hu.live hu.draining target
      exact ⟨Nat.le_of_eq hsame.1, Nat.le_of_eq hsame.2⟩
  rw [Controller.stir, Controller.stir, phase_next (w := w) h]
  cases s.controller.phase with
  | scaling target pause loop =>
    exact Nat.add_le_add (hcrew target).1 (Nat.add_le_add_right (hcrew target).2 3)
  | _ => exact Nat.add_le_add_right (hcrew 0).1 _

/-- **A controller does not spin.**  Among the next steps of a controller in its control loop, whose
number is bounded, there is one that looks at the clock, goes to sleep, or leaves the loop. -/
theorem stirs (hloops : s.controller.isLooping = true) {choices : List Choice}
    (hmany : s.controller.stir < choices.countP Choice.isController) :
    ∃ front now back, choices = front ++ .controller now :: back ∧
      (s.run w front).controller.isLooping = true ∧
      ((s.run w front).controller.looks = true ∨
        (∃ d, ((s.run w front).controller.step w now (s.run w front).aborted).2 = .sleeps d) ∨
        ((s.run w front).next w (.controller now)).controller.isLooping = false) := by
  induction choices generalizing s with
  | nil => exact absurd hmany (Nat.not_lt_zero _)
  | cons choice rest ih =>
    -- What happens later happens in the run of the rest.
    have hlater (hnext : (s.next w choice).controller.isLooping = true)
        (hmore : (s.next w choice).controller.stir < rest.countP Choice.isController) :
        ∃ front now back, choice :: rest = front ++ .controller now :: back ∧
          (s.run w front).controller.isLooping = true ∧
          ((s.run w front).controller.looks = true ∨
            (∃ d, ((s.run w front).controller.step w now (s.run w front).aborted).2 =
              .sleeps d) ∨
            ((s.run w front).next w (.controller now)).controller.isLooping = false) := by
      obtain ⟨front, now, back, rfl, h⟩ := ih hnext hmore
      exact ⟨choice :: front, now, back, rfl, h⟩
    by_cases hcontroller : ∃ now, choice = .controller now
    · obtain ⟨now, rfl⟩ := hcontroller
      rw [List.countP_cons_of_pos rfl] at hmany
      rcases Controller.advances hloops w now s.aborted with hpast | ⟨hloops', -, hnearer⟩
      · refine ⟨[], now, rest, rfl, hloops, .inr (.inr ?_)⟩
        exact hpast.not_looping
      · rcases hnearer with hlooks | hsleeps | hless
        · exact ⟨[], now, rest, rfl, hloops, .inl hlooks⟩
        · exact ⟨[], now, rest, rfl, hloops, .inr (.inl hsleeps)⟩
        · exact hlater hloops' (Nat.lt_of_lt_of_le hless (Nat.le_of_lt_succ hmany))
    · have hother (now : Span) : choice ≠ .controller now := fun hc => hcontroller ⟨now, hc⟩
      have hnone : ¬choice.isController = true := by
        cases choice with
        | controller now => exact absurd rfl (hother now)
        | _ => exact Bool.noConfusion
      rw [List.countP_cons_of_neg hnone] at hmany
      refine hlater ?_ (Nat.lt_of_le_of_lt (stir_other hother) hmany)
      rw [Controller.isLooping, phase_next hother]
      exact hloops

end Scene

end LoadReplay
