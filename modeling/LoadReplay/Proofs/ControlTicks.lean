import LoadReplay.Proofs.LoopProgress
import LoadReplay.Proofs.Validation

/-!
# Control loops that end on time

The waits of a control loop are its ticks.  As long as the loop keeps its schedule, each tick that
is begun is one that the schedule allows, so there are only so many of them, and the loop is left
only at a reading of the clock at or past its end, or because the run was aborted, or because
something has failed.

## Shape of the proof

A step of the controller in its loop leads from row to row of the schedule, or it leaves the loop
for a reason (`Row.step`); whatever else happens only lets time pass.  `Keeps.run` counts the ticks
of a run along with that.  After an abort, the tick that is begun next looks at the flag, and
nothing comes after it (`Controller.IsSpent`).

Main statement: `Scene.ticks_on_time`.
-/

namespace LoadReplay

/-! ## Control loops that keep their schedules -/

namespace Controller

variable {w : Waiting} {c : Controller}

/-- What the crew is in the middle of leaves the phase as it is, unless a user has failed. -/
theorem step_of_busy (hbusy : c.crew.task ≠ .none) (now : Span) (aborted : Bool) :
    (c.step w now aborted).1.phase = c.phase ∨
      (c.step w now aborted).1.phase = .closing ∧ (c.step w now aborted).1.broken = true := by
  have hst := c.steps w now aborted
  generalize (c.step w now aborted).1 = c' at hst
  generalize (c.step w now aborted).2 = e at hst
  cases hst with
  | acts hidle => exact absurd hidle hbusy
  | works | started | joined => exact .inl rfl
  | broken | refused => exact .inr ⟨rfl, rfl⟩

end Controller

namespace Schedule

variable {k : Schedule} {w : Waiting} {n : Nat} {last now wait : Span} {s : Scene}

/-- Why a control loop is left: it has read that it is to end, or a tick has seen an abort, or a sum
was too great, or a user has failed. -/
inductive Leaves (k : Schedule) (now : Span) (s s' : Scene) : Prop where
  | ends (hlooks : s.controller.looks = true) (hover : k.finish ≤ now.nanos)
  | stops (haborted : s.aborted = true) (hminds : s.controller.mindsFlag = true)
  | overflows (hcrashed : s'.controller.phase = .crashed)
  | fails (hbroken : s'.controller.broken = true)

/-- **One step of a control loop.**  It is left for a reason, or it goes from row to row. -/
theorem Row.step (h : k.Row w n last s)
    (hinterval : s.controller.post.scenario.controlInterval = k.interval)
    (hpos : 0 < k.interval.nanos) (hloops : s.controller.isLooping = true)
    (hserved : (s.next w (.controller now)).Served w) :
    (k.Leaves now s (s.next w (.controller now)) ∧
        (s.next w (.controller now)).controller.IsPast) ∨
      ((s.next w (.controller now)).controller.isLooping = true ∧
        k.Row w (n + s.controller.asks?.toList.length) (s.looked last (.controller now))
          (s.next w (.controller now))) := by
  rw [Controller.isLooping] at hloops
  -- An idle crew leaves the step to the control loop, whose phase decides which of its three steps
  -- that is.
  by_cases hidle : s.crew.task = .none
  · have hnothing : s.controller.crew.isIdle = true := by
      show s.crew.isIdle = true
      rw [Crew.isIdle, hidle]
    cases hphase : s.controller.phase with
    | deciding loop =>
      have hlooks : s.controller.looks = true := by simp [Controller.looks, hnothing, hphase]
      have hasks : s.controller.asks? = none := by simp [Controller.asks?, hphase]
      rw [hasks, Scene.looked, hlooks]
      rcases h.decides hinterval hpos hidle hphase (hserved.passes.1.trans_eq
        (s.latest_controller w now)) with ⟨hover, hclosing⟩ | hrow
      · exact .inl ⟨.ends hlooks hover, Controller.isPast_of_closing hclosing⟩
      · exact .inr hrow
    | scaling target pause loop =>
      have hlooks : s.controller.looks = false := by simp [Controller.looks, hphase]
      have hasks : s.controller.asks? = none := by simp [Controller.asks?, hphase]
      rw [hasks, Scene.looked, hlooks]
      exact .inr (h.scales hidle hphase hserved)
    | ticking p loop =>
      have hlooks : s.controller.looks = false := by simp [Controller.looks, hphase]
      have hasks : s.controller.asks? = p.asked? := by
        simp [Controller.asks?, hnothing, hphase]
      rw [hasks, Scene.looked, hlooks]
      rcases h.waits hidle hphase hserved with ⟨⟨haborted, hreads⟩, hclosing⟩ | hcrashed | hrow
      · have hminds : s.controller.mindsFlag = true := by
          simp [Controller.mindsFlag, hnothing, hphase, hreads]
        exact .inl ⟨.stops haborted hminds, Controller.isPast_of_closing hclosing⟩
      · exact .inl ⟨.overflows hcrashed, by rw [Controller.IsPast, hcrashed]; trivial⟩
      · exact .inr hrow
    | _ =>
      rw [hphase] at hloops
      cases hloops
  -- A busy crew makes a step of its own, and the loop stays where it is unless a thread could not
  -- be started.
  · have hbusy : s.controller.crew.isIdle = false :=
      Bool.eq_false_iff.2 fun hnothing => hidle (Crew.task_of_isIdle hnothing)
    have hlooks : s.controller.looks = false := by simp [Controller.looks, hbusy]
    have hasks : s.controller.asks? = none := by simp [Controller.asks?, hbusy]
    rw [hasks, Scene.looked, hlooks]
    rcases Controller.step_of_busy (w := w) hidle now s.aborted with hsame | ⟨hclosing, hbroken⟩
    · replace hsame : (s.next w (.controller now)).controller.phase = s.controller.phase := hsame
      refine .inr ⟨?_, h.mono hsame hserved.passes⟩
      rw [Controller.isLooping, hsame]
      exact hloops
    · replace hclosing : (s.next w (.controller now)).controller.phase = .closing := hclosing
      exact .inl ⟨.fails hbroken, Controller.isPast_of_closing hclosing⟩

/-- A look at the clock at or past its end ends the loop. -/
theorem Row.closes (h : k.Row w n last s)
    (hinterval : s.controller.post.scenario.controlInterval = k.interval)
    (hlooks : s.controller.looks = true) (hover : k.finish ≤ now.nanos) :
    (s.next w (.controller now)).controller.phase = .closing := by
  obtain ⟨hidle, hdeciding⟩ := Bool.and_eq_true_iff.1 hlooks
  rw [Row] at h
  cases hphase : s.controller.phase with
  | deciding loop =>
    rw [hphase] at h
    have hbegan : k.began ≤ now := (k.began_le_due n).trans ((Nat.min_le_right _ _).trans hover)
    rw [Scene.controller_of_idle (Crew.task_of_isIdle hidle), Controller.act, hphase]
    show (s.controller.decide w loop now).1.phase = .closing
    rcases h.1.decide hbegan with ⟨-, hdecide⟩ | ⟨hlt, -⟩
    · rw [Controller.decide, hinterval, hdecide]
    · exact absurd hover (Nat.not_le_of_lt hlt)
  | _ =>
    rw [hphase] at hdeciding
    cases hdeciding

/-- What holds all the time from the beginning of a control loop on. -/
structure Keeps (k : Schedule) (w : Waiting) (n : Nat) (last : Span) (s : Scene) : Prop where
  interval : s.controller.post.scenario.controlInterval = k.interval
  count : n ≤ k.most
  row : k.Row w n last s

/-- From its beginning on a control loop goes on, or it was left. -/
theorem Row.looping_or_past (h : k.Row w n last s) :
    s.controller.isLooping = true ∨ s.controller.IsPast := by
  rw [Row] at h
  rw [Controller.isLooping, Controller.IsPast]
  cases hphase : s.controller.phase with
  | deciding | scaling | ticking => exact .inl rfl
  | delaying | starting | recruiting | entering =>
    rw [hphase] at h
    exact h.elim
  | _ => exact .inr trivial

/-- Only what a row allows is begun. -/
theorem Row.asks (h : k.Row w n last s) (hasks : s.controller.asks? = some wait) :
    k.Allows n last wait := by
  rw [Controller.asks?] at hasks
  split at hasks
  · cases hphase : s.controller.phase with
    | ticking p loop =>
      rw [hphase] at hasks
      rw [Row, hphase] at h
      exact h.2.1 wait hasks
    | _ =>
      rw [hphase] at hasks
      cases hasks
  · cases hasks

/-- Whatever happens, the schedule is kept, and a tick that is begun is one that it allows. -/
theorem Keeps.next (h : k.Keeps w n last s) (hpos : 0 < k.interval.nanos) (choice : Scene.Choice)
    (hserved : (s.next w choice).Served w) :
    k.Keeps w (n + (s.tick? last choice).toList.length) (s.looked last choice) (s.next w choice) ∧
      ∀ tick, s.tick? last choice = some tick → k.Allows n tick.asked tick.wait := by
  obtain ⟨hinterval, hcount, hrow⟩ := h
  have hpost : (s.next w choice).controller.post.scenario.controlInterval = k.interval := by
    rw [Scene.next_post, hinterval]
  -- Only the controller ticks; a step of anyone else leaves its phase and the schedule alone.
  by_cases hcontroller : ∃ now, choice = .controller now
  · obtain ⟨now, rfl⟩ := hcontroller
    have hallows (tick : Controller.Tick) (htick : s.tick? last (.controller now) = some tick) :
        k.Allows n tick.asked tick.wait := by
      obtain ⟨wait, hasks, rfl⟩ := Option.map_eq_some_iff.1 htick
      exact hrow.asks hasks
    have hlength : (s.tick? last (.controller now)).toList.length =
        s.controller.asks?.toList.length := by
      rw [Scene.tick?]
      cases s.controller.asks? <;> rfl
    refine ⟨⟨hpost, ?_, ?_⟩, hallows⟩
    · cases htick : s.tick? last (.controller now) with
      | none => exact hcount
      | some tick => exact (hallows tick htick).more
    · rw [hlength]
      rcases hrow.looping_or_past with hloops | hpast
      · rcases hrow.step hinterval hpos hloops hserved with ⟨-, hpast⟩ | ⟨-, hnext⟩
        · exact row_of_isPast hpast
        · exact hnext
      · exact row_of_isPast (hpast.steps (s.controller.steps w now s.aborted))
  · have hother (now : Span) : choice ≠ .controller now := fun hc => hcontroller ⟨now, hc⟩
    have hsame := Scene.phase_next (w := w) (s := s) hother
    have hnone : s.tick? last choice = none ∧ s.looked last choice = last := by
      cases choice with
      | controller now => exact absurd rfl (hother now)
      | _ => exact ⟨rfl, rfl⟩
    rw [hnone.1, hnone.2]
    exact ⟨⟨hpost, hcount, hrow.mono hsame hserved.passes⟩, fun tick htick => by cases htick⟩

/-- In every run on a clock that serves. -/
theorem Keeps.run (h : k.Keeps w n last s) (hpos : 0 < k.interval.nanos)
    (choices : List Scene.Choice) (hserved : (s.run w choices).Served w) :
    (∃ last', k.Keeps w (n + (s.ticks w last choices).length) last' (s.run w choices)) ∧
      ∀ tick ∈ s.ticks w last choices, ∃ m, k.Allows m tick.asked tick.wait := by
  induction choices generalizing s n last with
  | nil => exact ⟨⟨last, h⟩, fun tick htick => by cases htick⟩
  | cons choice rest ih =>
    have hrun : ((s.next w choice).run w rest).Served w := hserved
    obtain ⟨hnext, hallows⟩ := h.next hpos choice hrun.of_run
    obtain ⟨hkeeps, hrest⟩ := ih hnext hserved
    rw [Scene.ticks, List.length_append, ← Nat.add_assoc]
    refine ⟨hkeeps, fun tick htick => ?_⟩
    rcases List.mem_append.1 htick with htick | htick
    · exact ⟨n, hallows tick (Option.mem_toList.1 htick)⟩
    · exact hrest tick htick

end Schedule

/-! ## After an abort -/

namespace Controller

/-- Whether a controller begins no tick any more once the run is aborted: the one that was begun
last looks at the flag next. -/
def IsSpent (c : Controller) : Prop :=
  (∃ deadline loop, c.phase = .ticking (.checking deadline) loop) ∨ c.IsPast

variable {w : Waiting} {now : Span} {c : Controller}

/-- No tick that looks at the flag goes on after an abort. -/
theorem step_of_mindsFlag (h : c.mindsFlag = true) :
    (c.step w now true).1.phase = .closing ∧ (c.step w now true).1.cut = true := by
  obtain ⟨hidle, hreads⟩ := Bool.and_eq_true_iff.1 h
  cases hphase : c.phase with
  | ticking p loop =>
    rw [hphase] at hreads
    have hends : p.step now true = .ends false := by
      cases p with
      | glance | checking deadline | whole length => rfl
      | _ => cases hreads
    rw [step_of_ticking (Crew.task_of_isIdle hidle) hphase, hends]
    exact ⟨rfl, rfl⟩
  | _ =>
    rw [hphase] at hreads
    cases hreads

/-- After an abort a controller that has no tick left to ask for does not get one. -/
theorem IsSpent.step (h : c.IsSpent) : (c.step w now true).1.IsSpent := by
  rcases h with ⟨deadline, loop, hphase⟩ | hpast
  · by_cases hidle : c.crew.isIdle = true
    · have hminds : c.mindsFlag = true := by simp [mindsFlag, hidle, hphase, Pause.readsFlag]
      exact .inr (isPast_of_closing (step_of_mindsFlag hminds).1)
    · have hbusy : c.crew.task ≠ .none := fun hnone => hidle (by rw [Crew.isIdle, hnone])
      rcases step_of_busy (w := w) hbusy now true with hsame | ⟨hclosing, -⟩
      · exact .inl ⟨deadline, loop, hsame.trans hphase⟩
      · exact .inr (isPast_of_closing hclosing)
  · exact .inr (hpast.steps (c.steps w now true))

/-- A controller that has no tick left asks for none. -/
theorem IsSpent.asks?_eq_none (h : c.IsSpent) : c.asks? = none := by
  rw [asks?]
  split
  · rcases h with ⟨deadline, loop, hphase⟩ | hpast
    · rw [hphase]
      rfl
    · rw [IsPast] at hpast
      cases hphase : c.phase with
      | ticking p loop =>
        rw [hphase] at hpast
        exact hpast.elim
      | _ => rfl
  · rfl

/-- The tick that is begun after an abort is the last one. -/
theorem isSpent_of_asks? (h : c.asks? ≠ none) : (c.step w now true).1.IsSpent := by
  rw [asks?] at h
  split at h
  · rename_i hidle
    cases hphase : c.phase with
    | ticking p loop =>
      rw [hphase] at h
      rw [step_of_ticking (Crew.task_of_isIdle hidle) hphase]
      cases p with
      | opening length =>
        rw [Pause.step]
        cases now.add? length with
        | none => exact .inr trivial
        | some deadline => exact .inl ⟨deadline, loop, rfl⟩
      | whole length => exact .inr trivial
      | _ => exact absurd rfl h
    | _ =>
      rw [hphase] at h
      exact absurd rfl h
  · exact absurd rfl h

end Controller

namespace Scene

variable {w : Waiting} {s : Scene}

/-- So it stays, whatever is chosen. -/
theorem isSpent_next (haborted : s.aborted = true) (h : s.controller.IsSpent) (choice : Choice) :
    (s.next w choice).controller.IsSpent := by
  by_cases hcontroller : ∃ now, choice = .controller now
  · obtain ⟨now, rfl⟩ := hcontroller
    show (s.controller.step w now s.aborted).1.IsSpent
    rw [haborted]
    exact h.step
  · have hsame := phase_next (w := w) (s := s) fun now hc => hcontroller ⟨now, hc⟩
    rw [Controller.IsSpent, Controller.IsPast] at h ⊢
    rwa [hsame]

/-- From then on no tick is begun. -/
theorem ticks_of_isSpent (haborted : s.aborted = true) (h : s.controller.IsSpent) (last : Span)
    (choices : List Choice) : s.ticks w last choices = [] := by
  induction choices generalizing s last with
  | nil => rfl
  | cons choice rest ih =>
    have hnone : s.tick? last choice = none := by
      cases choice with
      | controller now => rw [tick?, h.asks?_eq_none, Option.map_none]
      | _ => rfl
    rw [ticks, hnone, ih (aborted_next haborted choice) (isSpent_next haborted h choice)]
    rfl

/-- Once the run is aborted, at most one tick is begun. -/
theorem length_ticks_le_one (haborted : s.aborted = true) (last : Span) (choices : List Choice) :
    (s.ticks w last choices).length ≤ 1 := by
  induction choices generalizing s last with
  | nil => exact Nat.zero_le 1
  | cons choice rest ih =>
    have hnext := aborted_next (w := w) haborted choice
    rw [ticks]
    cases htick : s.tick? last choice with
    | none => exact ih hnext _
    | some tick =>
      cases choice with
      | controller now =>
        have hasks : s.controller.asks? ≠ none := by
          intro hnone
          rw [tick?, hnone] at htick
          cases htick
        have hspent : (s.next w (.controller now)).controller.IsSpent := by
          show (s.controller.step w now s.aborted).1.IsSpent
          rw [haborted]
          exact Controller.isSpent_of_asks? hasks
        rw [ticks_of_isSpent hnext hspent]
        exact Nat.le_refl 1
      | _ => cases htick

/-! ## The loop of a scenario -/

/-- The reading of the clock before a control loop begins it. -/
theorem keeps_of_entering {total : Nat} {began : Span} (htimed : s.controller.Timed w)
    (htotal : s.controller.post.scenario.executor.lasts? = some total)
    (hphase : s.controller.phase = .entering)
    (hcrashed : (s.next w (.controller began)).controller.phase ≠ .crashed) :
    (s.next w (.controller began)).controller.isLooping = true ∧
      (⟨began, total, s.controller.post.scenario.controlInterval⟩ : Schedule).Keeps w 0 began
        (s.next w (.controller began)) := by
  rw [Controller.Timed, hphase] at htimed
  have hstep : (s.next w (.controller began)).controller =
      (s.controller.act w began s.aborted).1 := controller_of_idle htimed.1
  rw [Controller.act, hphase] at hstep
  cases hloop : s.controller.loop? began with
  | none =>
    simp only [hloop] at hstep
    rw [hstep] at hcrashed
    exact absurd rfl hcrashed
  | some loop =>
    simp only [hloop] at hstep
    refine ⟨by rw [Controller.isLooping, hstep], ⟨by rw [hstep], Nat.zero_le _, ?_⟩⟩
    rw [Schedule.Row, hstep]
    refine ⟨Controller.onSchedule_of_loop? htotal hloop _, ?_⟩
    rw [latest_controller, Schedule.due]
    exact Nat.min_le_left _ _

/-- The reading of the clock that begins the loop begins its schedule. -/
theorem keeps_of_begun (gens : Nat → Random.Generator) {post : Post} {total : Nat}
    (htotal : post.scenario.executor.lasts? = some total) {before : List Choice} {began : Span}
    (hentering : ((start w gens post).run w before).controller.phase = .entering)
    (hcrashed : ((start w gens post).run w (before ++ [.controller began])).controller.phase ≠
      .crashed) :
    let s := (start w gens post).run w (before ++ [.controller began])
    s.controller.isLooping = true ∧
      (⟨began, total, post.scenario.controlInterval⟩ : Schedule).Keeps w 0 began s := by
  have hpost := run_post w gens post before
  rw [run_concat] at hcrashed ⊢
  have hfirst := keeps_of_entering (timed_run w gens post before) (by rw [hpost]; exact htotal)
    hentering hcrashed
  rwa [hpost] at hfirst

/-- Where no user is ended by an error, only a thread that could not be started breaks the
controller. -/
theorem refuse_mem_of_broken {gens : Nat → Random.Generator} {post : Post} {choices : List Choice}
    (hbroken : ((start w gens post).run w choices).controller.broken = true)
    (hcalm : ¬((start w gens post).run w choices).SomeCrashed) : .refuse ∈ choices := by
  by_contra hrefuse
  have hunhindered := unhindered_run w gens post choices hrefuse hcalm
  cases hunhindered.broken.symm.trans hbroken

/-- A control loop is left for one of three reasons, unless a sum is too great. -/
theorem leaves_of_keeps {k : Schedule} {n : Nat} {last : Span} {choice : Choice}
    (hkeeps : k.Keeps w n last s) (hpos : 0 < k.interval.nanos)
    (hcrashed : (s.next w choice).controller.phase ≠ .crashed)
    (hserved : (s.next w choice).Served w) (hloops : s.controller.isLooping = true)
    (hleft : (s.next w choice).controller.isLooping = false) :
    ∃ now, choice = .controller now ∧
      ((s.controller.looks = true ∧ k.finish ≤ now.nanos) ∨
        (s.aborted = true ∧ s.controller.mindsFlag = true) ∨
        (s.next w choice).controller.broken = true) := by
  have hcontroller : ∃ now, choice = .controller now := by
    by_contra hother
    have hsame := phase_next (w := w) (s := s) fun now hc => hother ⟨now, hc⟩
    rw [Controller.isLooping, hsame, ← Controller.isLooping, hloops] at hleft
    cases hleft
  obtain ⟨now, rfl⟩ := hcontroller
  refine ⟨now, rfl, ?_⟩
  rcases hkeeps.row.step hkeeps.interval hpos hloops hserved with ⟨hleaves, -⟩ | ⟨hloops', -⟩
  · cases hleaves with
    | ends hlooks hover => exact .inl ⟨hlooks, hover⟩
    | stops haborted hminds => exact .inr (.inl ⟨haborted, hminds⟩)
    | fails hbroken => exact .inr (.inr hbroken)
    | overflows hphase => exact absurd hphase hcrashed
  · cases hloops'.symm.trans hleft

/-- **Control loops end on time.**  Let the scenario make sense, and let the clock serve: it never
goes back, and a sleep in one go is not too short.  From the reading of the clock on that begins the
control loop of the scenario, in every run in which no sum overflows and no user is ended by an
error:

* the loop begins, and it begins at most as many ticks as intervals are needed to cover its length;
  it looks at the clock at most once more often than that;
* every tick waits for more than nothing, for no more than the interval and, when the clock was
  read, for no more than the time that was left;
* the loop is left only at a reading of the clock at or past its end, or by a tick that looks at the
  flag of an aborted run, or with an error because the thread of a user could not be started;
* a look at the clock at or past its end ends the loop, and among a bounded number of next steps of
  the controller there is always one that looks at the clock, sleeps in a tick, or leaves the loop;
* once the run is aborted, at most one tick is begun, and the first look of a tick at the flag ends
  the loop. -/
theorem ticks_on_time (w : Waiting) (gens : Nat → Random.Generator) {post : Post} {total : Nat}
    (hvalid : post.scenario.validate = .ok ())
    (htotal : post.scenario.executor.lasts? = some total)
    (before after : List Choice) (began : Span)
    (hentering : ((start w gens post).run w before).controller.phase = .entering)
    (hsums : (start w gens post).SumsFit w (before ++ .controller began :: after))
    (hforward : ((start w gens post).run w (before ++ .controller began :: after)).Forward)
    (hrests : w = .whole →
      ((start w gens post).run w (before ++ .controller began :: after)).RestsOut)
    (hcalm : ¬((start w gens post).run w (before ++ .controller began :: after)).SomeCrashed) :
    let s := (start w gens post).run w (before ++ [.controller began])
    let finish := began.nanos + total
    s.controller.isLooping = true ∧
    (s.ticks w began after).length ≤ total ⌈/⌉ post.scenario.controlInterval.nanos ∧
    s.countLooks w after ≤ total ⌈/⌉ post.scenario.controlInterval.nanos + 1 ∧
    (∀ tick ∈ s.ticks w began after, 0 < tick.wait.nanos ∧
      tick.wait ≤ post.scenario.controlInterval ∧ tick.asked.nanos + tick.wait.nanos ≤ finish) ∧
    (∀ early choice late, after = early ++ choice :: late →
      (s.run w early).controller.isLooping = true →
      (s.run w (early ++ [choice])).controller.isLooping = false →
      ∃ now, choice = .controller now ∧
        (((s.run w early).controller.looks = true ∧ finish ≤ now.nanos) ∨
          ((s.run w early).aborted = true ∧ (s.run w early).controller.mindsFlag = true) ∨
          ((s.run w (early ++ [choice])).controller.broken = true ∧ .refuse ∈ before ++ early))) ∧
    (∀ early late now, after = early ++ late → (s.run w early).controller.looks = true →
      finish ≤ now.nanos →
      ((s.run w early).next w (.controller now)).controller.phase = .closing) ∧
    (∀ early part, (s.run w early).controller.isLooping = true →
      (s.run w early).controller.stir < part.countP Choice.isController →
      ∃ front now back, part = front ++ .controller now :: back ∧
        let t := (s.run w early).run w front
        t.controller.isLooping = true ∧
        (t.controller.looks = true ∨
          (∃ d, (t.controller.step w now t.aborted).2 = .sleeps d) ∨
          (t.next w (.controller now)).controller.isLooping = false)) ∧
    ∀ early late, after = early ++ late → (s.run w early).aborted = true →
      ((s.run w early).ticks w began late).length ≤ 1 ∧
      ((s.run w early).controller.mindsFlag = true →
        ∀ now, ((s.run w early).next w (.controller now)).controller.phase = .closing ∧
          ((s.run w early).next w (.controller now)).controller.cut = true) := by
  intro s finish
  have hpos : 0 < post.scenario.controlInterval.nanos :=
    (Scenario.validate_eq_ok.1 hvalid).2.2.1
  -- The whole run is the one up to the start of the loop and what follows, under both of its
  -- readings.
  have hrun (choices : List Choice) : s.run w choices =
      (start w gens post).run w (before ++ .controller began :: choices) := by
    rw [← run_append, List.append_assoc]
    rfl
  -- With all sums in range, no prefix of the run has crashed.
  have hfits (choices rest : List Choice) (h : after = choices ++ rest) :
      (s.run w choices).controller.phase ≠ .crashed := by
    rw [hrun, ← sumsFit_iff]
    intro first now others hsplit
    refine hsums first now (others ++ rest) ?_
    rw [h, ← List.cons_append, ← List.append_assoc, hsplit, List.append_assoc, List.cons_append]
  rw [← hrun] at hforward hrests hcalm
  obtain ⟨hloops, hkeeps⟩ : s.controller.isLooping = true ∧
      (⟨began, total, post.scenario.controlInterval⟩ : Schedule).Keeps w 0 began s :=
    keeps_of_begun gens htotal hentering (hfits [] after rfl)
  have hserved : (s.run w after).Served w := ⟨hforward, hrests⟩
  -- From here on one invariant carries everything: `Schedule.Keeps`, from the start of the loop on.
  obtain ⟨⟨last, hall⟩, hticks⟩ := hkeeps.run hpos after hserved
  have hcount : (s.ticks w began after).length ≤
      total ⌈/⌉ post.scenario.controlInterval.nanos := by
    have hmost := hall.count
    rwa [Nat.zero_add] at hmost
  refine ⟨hloops, hcount, ?_, fun tick htick => ?_, ?_, ?_,
    fun early part hlooping hmany => stirs hlooping hmany, ?_⟩
  · have hlooks := countLooks_le hloops began after (w := w)
    omega
  · obtain ⟨n, hallows⟩ := hticks tick htick
    exact ⟨hallows.pos, hallows.le_interval, hallows.le_finish⟩
  -- Why the loop is left: the invariant at the step before has an answer for each way out of it.
  · rintro early choice late rfl hearly hleft
    have hpart : s.run w (early ++ choice :: late) =
        ((s.run w early).next w choice).run w late := run_append s early (choice :: late)
    have hnext : s.run w (early ++ [choice]) = (s.run w early).next w choice := run_concat _ _ _
    have hcrashed := hfits (early ++ [choice]) late (by simp)
    rw [hpart] at hserved hcalm
    rw [hnext] at hleft hcrashed ⊢
    have hchoice := hserved.of_run
    obtain ⟨⟨last', hthere⟩, -⟩ := hkeeps.run hpos early hchoice.of_next
    obtain ⟨now, rfl, hwhy⟩ := leaves_of_keeps hthere hpos hcrashed hchoice hearly hleft
    refine ⟨now, rfl, hwhy.imp_right (Or.imp_right fun hbroken => ⟨hbroken, ?_⟩)⟩
    rw [← hnext, hrun] at hbroken
    have hrefuse := refuse_mem_of_broken hbroken fun hcrashed => by
      rw [← hrun, hnext] at hcrashed
      exact hcalm (hcrashed.run late)
    simpa using hrefuse
  -- A look at the clock at the end of the schedule or later leaves the loop at once.
  · rintro early late now rfl hlooks hover
    have hpart : s.run w (early ++ late) = (s.run w early).run w late := run_append s early late
    rw [hpart] at hserved
    obtain ⟨⟨last', hthere⟩, -⟩ := hkeeps.run hpos early hserved.of_run
    exact hthere.row.closes hthere.interval hlooks hover
  -- After an abort the next look at the flag is the last thing that the loop does.
  · rintro early late rfl haborted
    refine ⟨length_ticks_le_one haborted began late, fun hminds now => ?_⟩
    show ((s.run w early).controller.step w now (s.run w early).aborted).1.phase = .closing ∧
      ((s.run w early).controller.step w now (s.run w early).aborted).1.cut = true
    rw [haborted]
    exact Controller.step_of_mindsFlag hminds

/-- One user for 25 milliseconds, with a look at the clock every 10 milliseconds. -/
def shift : Post :=
  { scenario :=
      { Scenario.new "shift" (.constantConcurrency 1 (.millis 25)) with
        controlInterval := .millis 10 }
    groups := [] }

/-- The user is started. -/
def enlisting : List Choice := .replicate 8 (.controller .zero)

/-- Three ticks, the second one of which takes too long, and the look at the clock that ends the
loop. -/
def shifting : List Choice :=
  List.flatten
    [.replicate 7 (.controller (.millis 3)), .replicate 8 (.controller (.millis 13)),
      .replicate 8 (.controller (.millis 24)), .replicate 2 (.controller (.millis 28))]

/-- The user is started, the controller reads the clock, and all this happens. -/
def shiftRun : List Choice := enlisting ++ .controller (.millis 3) :: shifting

/-- What has come of the scenario. -/
def shiftScene (choices : List Choice) : Scene :=
  (start .whole (.seeded 0 "shift") shift).run .whole choices

/-- Twenty-five milliseconds with a look every ten: two full ticks and one for what is left. -/
theorem ticks_on_time_shift :
    let s := shiftScene (enlisting ++ [.controller (.millis 3)])
    s.ticks .whole (.millis 3) shifting =
        [⟨.millis 3, .millis 10⟩, ⟨.millis 13, .millis 10⟩, ⟨.millis 24, .millis 4⟩] ∧
      (s.ticks .whole (.millis 3) shifting).length ≤ 25000000 ⌈/⌉ 10000000 ∧
      s.countLooks .whole shifting ≤ 25000000 ⌈/⌉ 10000000 + 1 ∧
      ∀ tick ∈ s.ticks .whole (.millis 3) shifting, 0 < tick.wait.nanos ∧
        tick.wait ≤ .millis 10 ∧ tick.asked.nanos + tick.wait.nanos ≤ 28000000 := by
  intro s
  have hentering : (shiftScene enlisting).controller.phase = .entering := rfl
  have hgoing : (shiftScene shiftRun).controller.isOver = false := by decide +kernel
  have hwell : ((shiftScene shiftRun).crew.threads.all fun t => !t.user.isOver) = true := by
    decide +kernel
  obtain ⟨-, hcount, hlooks, hwaits, -⟩ := ticks_on_time .whole (.seeded 0 "shift") rfl rfl
    enlisting shifting (.millis 3) hentering (by
      rw [sumsFit_iff]
      intro hcrashed
      rw [shiftScene, shiftRun, Controller.isOver, hcrashed] at hgoing
      cases hgoing)
    (by decide +kernel) (fun _ => by decide +kernel) (by
      rintro ⟨i, t, ht, hphase⟩
      have hnot := List.all_eq_true.1 hwell t (List.mem_of_getElem? ht)
      rw [User.isOver, hphase] at hnot
      cases hnot)
  exact ⟨by decide +kernel, hcount, hlooks, hwaits⟩

end Scene

end LoadReplay
