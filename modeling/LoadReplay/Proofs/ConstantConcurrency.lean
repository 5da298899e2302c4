import LoadReplay.Proofs.ConstantControl
import LoadReplay.Proofs.Overflow
import LoadReplay.Proofs.Readings

/-!
# Constant concurrency stays constant

A virtual user of a constant number of users leaves only when it is told to retire, when the run is
aborted, or when an error ends it.  In a run that is not disturbed (`Scene.Undisturbed`) the
controller therefore finds nobody gone when it looks, and the table of its phases
(`Controller.Mans`) is kept by every step.  A second table says what it knows of its time
(`Controller.Timely`): its deadline lies the duration after a reading of the clock, and it winds the
scenario up only after a reading at or past it.

Main statement: `Scene.constant_concurrency`.
-/

namespace LoadReplay

namespace Controller

variable {concurrency : Nat} {duration : Span} {w : Waiting} {now : Span} {c c' : Controller}
  {e : Effect}

/-! ## What a controller knows of its time -/

/-- Whether a control loop that began with a reading of the clock has its deadline there. -/
def Deadline (duration : Span) (readings : List Span) (c : Controller) (deadline : Span) : Prop :=
  ∃ opened ∈ readings, c.began ≤ opened ∧ deadline.nanos = opened.nanos + duration.nanos

/-- Whether a deadline was seen to be over. -/
def Lasted (duration : Span) (readings : List Span) (c : Controller) : Prop :=
  ∃ deadline, c.Deadline duration readings deadline ∧ ∃ now ∈ readings, deadline ≤ now

/-- What a controller of a constant number of users knows of its time, in each phase. -/
def Timely (duration : Span) (readings : List Span) (c : Controller) : Prop :=
  match c.phase with
  | .recruiting _ | .entering => c.began ∈ readings
  | .deciding loop | .ticking _ loop =>
    ∀ deadline, loop = .untilTime deadline → c.Deadline duration readings deadline
  | .closing | .telling _ | .joining _ _ => c.broken = true ∨ c.Lasted duration readings
  | .reporting => c.Lasted duration readings
  | .ended report => duration ≤ report.elapsed
  | .delaying _ | .starting | .scaling _ _ _ | .failed | .crashed => True

variable {readings readings' : List Span}

/-- A deadline stays the one that it was while more readings are made. -/
theorem Deadline.mono {deadline : Span} (h : c.Deadline duration readings deadline)
    (hbegan : c'.began = c.began) (hreadings : readings ⊆ readings') :
    c'.Deadline duration readings' deadline := by
  obtain ⟨opened, hopened, hle, hsum⟩ := h
  exact ⟨opened, hreadings hopened, by rwa [hbegan], hsum⟩

/-- A deadline that was seen to be over stays so. -/
theorem Lasted.mono (h : c.Lasted duration readings) (hbegan : c'.began = c.began)
    (hreadings : readings ⊆ readings') : c'.Lasted duration readings' := by
  obtain ⟨deadline, hdeadline, now, hnow, hle⟩ := h
  exact ⟨deadline, hdeadline.mono hbegan hreadings, now, hreadings hnow, hle⟩

/-- Only the phase, the start and what the clock has shown matter. -/
theorem Timely.congr (h : c.Timely duration readings) (hphase : c'.phase = c.phase)
    (hbegan : c'.began = c.began) (hbroken : c'.broken = c.broken)
    (hreadings : readings ⊆ readings') : c'.Timely duration readings' := by
  rw [Timely] at h ⊢
  rw [hphase]
  match hp : c.phase with
  | .recruiting _ | .entering =>
    rw [hp] at h
    show c'.began ∈ readings'
    rw [hbegan]
    exact hreadings h
  | .deciding _ | .ticking _ _ =>
    rw [hp] at h
    exact fun deadline hloop => (h deadline hloop).mono hbegan hreadings
  | .closing | .telling _ | .joining _ _ =>
    rw [hp] at h
    exact h.imp (hbroken.trans ·) fun hl => hl.mono hbegan hreadings
  | .reporting =>
    rw [hp] at h
    exact h.mono hbegan hreadings
  | .ended _ =>
    rw [hp] at h
    exact h
  | .delaying _ | .starting | .scaling _ _ _ | .failed | .crashed => trivial

/-- From the start to the end of a deadline that was seen to be over passes the duration. -/
theorem Lasted.le_elapsed (h : c.Lasted duration readings) (hlate : ∀ r ∈ readings, r ≤ now) :
    duration ≤ now - c.began := by
  obtain ⟨deadline, ⟨opened, -, hbegan, hsum⟩, r, hr, hover⟩ := h
  have hnow := hlate r hr
  rw [Span.le_def] at *
  rw [Span.nanos_sub]
  omega

/-- A controller whose crew is idle keeps to its time. -/
theorem Timely.acts (hx : c.post.scenario.executor = .constantConcurrency concurrency duration)
    (hmans : c.Mans concurrency) (h : c.Timely duration readings) (ha : c.Acts w now c' e)
    (hminds : c.Minds now c') (hlate : ∀ r ∈ readings, r ≤ now) :
    c'.Timely duration (readings ++ [now]) := by
  have hreadings : readings ⊆ readings ++ [now] := List.subset_append_left _ _
  have hnow : now ∈ readings ++ [now] := List.mem_concat_self
  -- The loop of this executor ends only at its deadline, and that moment is among the readings.
  have hover (loop : Loop) (hphase : c.phase = .deciding loop) (hclosing : c'.phase = .closing) :
      c.Lasted duration (readings ++ [now]) := by
    rw [Mans, hphase] at hmans
    rw [Timely, hphase] at h
    obtain ⟨deadline, rfl⟩ := hmans.2.2.2
    exact ⟨deadline, (h deadline rfl).mono rfl hreadings, now, hnow,
      (hminds.finishes deadline hphase hclosing).1⟩
  have hrow := h
  rw [Timely] at hrow
  -- One rule after another; those of other executors contradict `hx`, and those of an abort or a
  -- crash `hminds`.
  cases ha with
  | rests | awaits => exact h.congr rfl rfl rfl hreadings
  | delays | delayed | overflows => trivial
  | skips p hphase => exact absurd rfl (hminds.starts p _ hphase)
  | startsNone _ _ hx' | startsFixed _ _ _ hx' | startsRamp _ _ _ _ hx'
  | recruitedFixed _ _ _ hx' =>
    rw [hx] at hx'
    cases hx'
  | startsConstant => exact hnow
  | recruits left hphase | recruited hphase =>
    rw [hphase] at hrow
    exact hreadings hrow
  | enters loop hphase hl =>
    rw [hphase] at hrow
    rw [loop?, hx] at hl
    rintro deadline rfl
    obtain ⟨_, hadd, hloop⟩ := Option.map_eq_some_iff.1 hl
    obtain rfl := Loop.untilTime.inj hloop
    exact ⟨now, hnow, hlate _ hrow, Span.add?_eq_some hadd⟩
  | finishes loop hphase => exact .inr ((hover loop hphase rfl).mono rfl (List.Subset.refl _))
  | finishesReaping loop hphase =>
    exact .inr ((hover loop hphase rfl).mono rfl (List.Subset.refl _))
  | aims loop _ _ hphase hd =>
    rw [Mans, hphase] at hmans
    obtain ⟨deadline, rfl⟩ := hmans.2.2.2
    rw [Loop.decide] at hd
    split at hd <;> cases hd
  | looks loop _ hphase | ticks _ _ loop _ hphase | ticked _ loop hphase =>
    rw [hphase] at hrow
    exact fun deadline hloop => (hrow deadline hloop).mono rfl hreadings
  | retires _ _ _ hphase | spawns _ _ _ hphase | settles _ _ _ hphase =>
    rw [Mans, hphase] at hmans
    exact hmans.elim
  | cuts p loop hphase => exact absurd rfl (hminds.ticks p loop hphase)
  | joinedAll last hphase =>
    rw [hphase] at hrow
    rw [joined]
    cases last with
    | false => exact hrow.imp_right fun hl => hl.mono rfl hreadings
    | true =>
      -- What was joined last may belong to a loop that was broken up, and then there is no time to
      -- account for.
      cases hbroken : c.broken with
      | true => trivial
      | false =>
        have hl := hrow.resolve_left (by rw [hbroken]; exact Bool.noConfusion)
        exact hl.mono rfl hreadings
  | joins _ _ _ _ hphase =>
    rw [hphase] at hrow
    exact hrow.imp_right fun hl => hl.mono rfl hreadings
  | breaks _ _ last =>
    rw [joined]
    cases last with
    | false => exact .inl rfl
    | true => trivial
  | closes hphase | tells _ _ hphase | told hphase =>
    rw [hphase] at hrow
    exact hrow.imp_right fun hl => hl.mono rfl hreadings
  | reports hphase =>
    rw [hphase] at hrow
    exact hrow.le_elapsed hlate

/-- So does one whose crew is in the middle of something. -/
theorem Timely.steps (hx : c.post.scenario.executor = .constantConcurrency concurrency duration)
    (hmans : c.Mans concurrency) (h : c.Timely duration readings) (hst : c.Steps w now c' e)
    (hminds : c.crew.task = .none → c.Minds now c') (hlate : ∀ r ∈ readings, r ≤ now) :
    c'.Timely duration (readings ++ [now]) := by
  cases hst with
  | acts hidle ha => exact h.acts hx hmans ha (hminds hidle) hlate
  | works | started | joined => exact h.congr rfl rfl rfl (List.subset_append_left _ _)
  | broken | refused => exact .inl rfl

end Controller

namespace Scene

variable {concurrency : Nat} {duration : Span} {w : Waiting} {s s' : Scene}

/-! ## Runs that nothing disturbs -/

/-- Whether the clock never went back, the run was not aborted, and no user was ended by an
error. -/
structure Undisturbed (s : Scene) : Prop where
  forward : s.Forward
  going : s.aborted = false
  calm : ¬s.SomeCrashed

/-- If nothing disturbs a run, nothing has disturbed it before its last step. -/
theorem Undisturbed.of_next {choice : Choice} (h : (s.next w choice).Undisturbed) :
    s.Undisturbed :=
  ⟨h.forward.of_next, not_aborted_of_next h.going, fun hc => h.calm (hc.next choice)⟩

/-- What holds all the time of a scenario with a constant number of users. -/
structure Steady (concurrency : Nat) (duration : Span) (s : Scene) : Prop where
  mans : s.controller.Mans concurrency
  timely : s.controller.Timely duration s.readings
  budget : s.controller.budget = none
  cut : s.controller.cut = false
  /-- Only who is told to retire ends. -/
  staying : ∀ t ∈ s.crew.threads, t.retired = false → t.user.isOver = false

/-- A controller that nobody has aborted minds the clock. -/
theorem Undisturbed.minds (h : s.Undisturbed) (w : Waiting) (now : Span)
    (hidle : s.controller.crew.task = .none) :
    s.controller.Minds now (s.controller.step w now s.aborted).1 := by
  rw [h.going]
  exact s.controller.minds_step hidle

/-- A step of the controller tells nobody to retire before it has seen the deadline. -/
theorem Steady.stepController
    (hx : s.controller.post.scenario.executor = .constantConcurrency concurrency duration)
    (h : s.Steady concurrency duration) (hs : ∀ p ∈ s.crew.standings, p.Sound)
    (hbalanced : s.crew.Balanced) (hwelcomes : s.controller.Welcomes) {now : Span}
    (hnext : (s.stepController w now).Undisturbed) :
    (s.stepController w now).Steady concurrency duration := by
  have hst := s.controller.steps w now s.aborted
  have hafter : (s.next w (.controller now)).Undisturbed := hnext
  have hminds := hafter.of_next.minds w now
  refine ⟨h.mans.steps hx hs hbalanced hst hminds, ?_, hst.budget_of_constant hx h.budget, ?_, ?_⟩
  · rw [readings_stepController]
    exact h.timely.steps hx h.mans hst hminds fun r hr => hnext.forward.le_of_stepController hr
  · show (s.controller.step w now s.aborted).1.cut = false
    rw [Controller.cut_step, h.cut, hafter.of_next.going, Controller.isCut_of_going]
    rfl
  · intro t' ht' hretired'
    obtain ⟨i, hi⟩ := List.mem_iff_getElem?.1 ht'
    have hi : (s.controller.step w now s.aborted).1.crew.threads[i]? = some t' := hi
    rcases hst.change.thread hi with ⟨t, ht, huser, -⟩ | ⟨u, htask, -, rfl⟩
    · rw [huser]
      apply h.staying t (List.mem_of_getElem? ht)
      cases hretired : t.retired with
      | false => rfl
      | true =>
        -- Who was told to retire before stays so.
        have htold : s.crew.isRetired i = true := by
          rw [Crew.isRetired, crew, ht]
          exact hretired
        have htold' := hst.change.isRetired htold
        rw [Crew.isRetired, hi] at htold'
        exact htold'.symm.trans hretired'
    · rw [hwelcomes u (by rw [htask]; rfl)]
      rfl

/-- What concerns the crew alone. -/
theorem Steady.of_alike (h : s.Steady concurrency duration) (halike : s.crew.Alike s'.crew)
    (hcontroller : s'.controller =
      { s.controller with crew := s'.crew, budget := s'.controller.budget })
    (hreadings : s.readings ⊆ s'.readings) (hbudget : s'.controller.budget = none)
    (hstaying : ∀ t ∈ s'.crew.threads, t.retired = false → t.user.isOver = false) :
    s'.Steady concurrency duration := by
  refine ⟨?_, h.timely.congr ?_ ?_ ?_ hreadings, hbudget, ?_, hstaying⟩
  · rw [hcontroller]
    exact h.mans.of_crew halike
  · rw [hcontroller]
  · rw [hcontroller]
  · rw [hcontroller]
  · rw [hcontroller]
    exact h.cut

/-- A thread that cannot be started tells nobody to retire. -/
theorem Steady.refuse (h : s.Steady concurrency duration) :
    (s.modifyCrew (·.refuse)).Steady concurrency duration := by
  have halike : s.crew.Alike s.crew.refuse := by
    rcases s.crew.refuse_cases with hr | ⟨u, ht, hr⟩ <;> rw [hr]
    · exact ⟨rfl, rfl, rfl, rfl, rfl, rfl, .inl rfl, id⟩
    · exact ⟨rfl, rfl, rfl, rfl, rfl, rfl, .inr ⟨u, ht, rfl⟩, id⟩
  refine h.of_alike halike rfl (List.Subset.refl _) h.budget ?_
  have hthreads : s.crew.refuse.threads = s.crew.threads := by
    rcases s.crew.refuse_cases with hr | ⟨u, ht, hr⟩ <;> rw [hr]
  show ∀ t ∈ s.crew.refuse.threads, _
  rw [hthreads]
  exact h.staying

/-- A thread that is on its way out is that of a user that was told to retire. -/
theorem Steady.leave (h : s.Steady concurrency duration) {i : Nat} (hi : s.user? i = none) :
    (s.modifyCrew (·.leave i)).Steady concurrency duration := by
  have hleaves (t : Thread) (hretired : t.leave.retired = false) : t.retired = false := by
    obtain ⟨user, retired, exit⟩ := t
    cases exit with
    | staying => cases hretired
    | _ => exact hretired
  have halike : s.crew.Alike (s.crew.leave i) := by
    obtain ⟨htask, hlive, hdraining⟩ := s.crew.task_leave i
    obtain ⟨hspawned, hreports⟩ := s.crew.leave_reports i
    refine ⟨s.crew.length_leave i, hlive, hdraining, hreports, ?_, hspawned, .inl htask, ?_⟩
    · rcases s.crew.leave_cases i with ⟨-, hl⟩ | ⟨t, -, hl⟩ <;> rw [hl]
      cases t.exit <;> rfl
    · -- Where nobody was told to retire nobody has ended.
      intro hall
      rcases s.crew.leave_cases i with ⟨-, hl⟩ | ⟨t, ht, -⟩
      · rwa [hl]
      · have hmem := List.mem_of_getElem? ht
        have hover := isOver_of_user? hi ht
        rw [h.staying t hmem (hall t hmem)] at hover
        cases hover
  refine h.of_alike halike rfl (List.Subset.refl _) h.budget ?_
  intro t' ht' hretired
  obtain ⟨j, hj⟩ := List.mem_iff_getElem?.1 ht'
  obtain ⟨t, ht, rfl⟩ := Crew.thread_leave.1 hj
  split at hretired
  · rename_i hij
    rw [if_pos hij, Thread.user_leave]
    exact h.staying t (List.mem_of_getElem? ht) (hleaves t hretired)
  · rename_i hij
    rw [if_neg hij]
    exact h.staying t (List.mem_of_getElem? ht) hretired

/-- Steps of users change nothing about the crew. -/
theorem UsersMoved.alike (hu : s.UsersMoved s') : s.crew.Alike s'.crew := by
  refine ⟨hu.length, hu.live, hu.draining, by rw [hu.crew], by rw [hu.gauge], by rw [hu.gauge],
    .inl hu.task, fun hall t' ht' => ?_⟩
  have hp : t'.standing ∈ s.crew.standings := by
    rw [← hu.standings]
    exact List.mem_map_of_mem ht'
  obtain ⟨t, ht, hsame⟩ := List.mem_map.1 hp
  have hretired : t.retired = t'.retired := congrArg Standing.retired hsame
  rw [← hretired]
  exact hall t ht

/-- Whatever users do, only who was told to retire ends, as long as nobody is ended otherwise. -/
theorem Steady.users (h : s.Steady concurrency duration) (hu : s.UsersMoved s')
    (hbudget : s'.controller.budget = none)
    (hstaying : ∀ t ∈ s'.crew.threads, t.retired = false → t.user.isOver = false) :
    s'.Steady concurrency duration := by
  refine h.of_alike hu.alike hu.controller (fun r hr => ?_) hbudget hstaying
  rw [readings] at hr ⊢
  rcases hu.log with hlog | ⟨i, now, effect, hlog⟩
  · rwa [hlog]
  · rw [hlog, List.map_append]
    exact List.mem_append_left _ hr

/-- A user that is changed is no longer at work only if it was told to retire. -/
theorem Steady.staying_modifyUser (h : s.Steady concurrency duration) {i : Nat} {f : User → User}
    (hf : ∀ t, s.crew.threads[i]? = some t → t.retired = false → (f t.user).isOver = false) :
    ∀ t ∈ (s.modifyUser i f).crew.threads, t.retired = false → t.user.isOver = false := by
  intro t' ht' hretired
  obtain ⟨j, hj⟩ := List.mem_iff_getElem?.1 ht'
  obtain ⟨t, ht, rfl⟩ := thread_modifyUser.1 hj
  split at hretired
  · rename_i hij
    subst hij
    rw [if_pos rfl]
    exact hf t ht hretired
  · rename_i hij
    rw [if_neg hij]
    exact h.staying t (List.mem_of_getElem? ht) hretired

/-- Without a budget, an abort or an error no step of a user ends it. -/
theorem Steady.stepUser (h : s.Steady concurrency duration) {i : Nat} {t : Thread}
    (hi : s.user? i = some t) (now : Span) (hnext : (s.stepUser w i now t).Undisturbed) :
    (s.stepUser w i now t).Steady concurrency duration := by
  refine h.users (usersMoved_stepUser w hi now) ?_ ?_
  · rw [Scene.stepUser]
    obtain ⟨u, effect⟩ := t.user.step s.controller.post w (s.view now t.retired)
    cases effect with
    | claims =>
      show s.controller.budget.bind _ = none
      rw [h.budget]
      rfl
    | _ => exact h.budget
  · rw [crew_stepUser]
    obtain ⟨ht, hover⟩ := user?_eq_some hi
    refine h.staying_modifyUser fun t' ht' hretired => ?_
    obtain rfl : t = t' := Option.some.inj (ht.symm.trans ht')
    show (s.turn w now t).1.isOver = false
    rw [User.isOver]
    -- A user that is not told to retire, with no budget and no abort, has nothing to end for.
    cases hphase : (s.turn w now t).1.phase with
    | ended aborted =>
      cases aborted with
      | true =>
        have haborted : s.aborted = true := User.aborted_of_step hover hphase
        rw [← aborted_stepUser (w := w) s i now t, hnext.going] at haborted
        cases haborted
      | false =>
        rcases User.ends_of_step hover hphase with hretires | hgrants
        · exact absurd (hretires.symm.trans hretired) Bool.noConfusion
        · have hgranted : s.controller.grants = true := by rw [Controller.grants, h.budget]; rfl
          exact absurd (hgranted.symm.trans hgrants) Bool.noConfusion
    | crashed =>
      refine absurd ⟨i, { t with user := (s.turn w now t).1 }, ?_, hphase⟩ hnext.calm
      rw [crew_stepUser, thread_modifyUser]
      exact ⟨t, ht, by rw [if_pos rfl]⟩
    | _ => rfl

/-- An answer ends no user, unless it says that the dispatch was cancelled. -/
theorem Steady.reply (h : s.Steady concurrency duration) (i : Nat) {r : Reply}
    (hr : r ≠ .cancelled) : (s.modifyUser i (·.receive r)).Steady concurrency duration := by
  refine h.users (usersMoved_modifyUser s i fun t _ hover => receive_of_isOver hover r) h.budget ?_
  refine h.staying_modifyUser fun t ht hretired => ?_
  rcases t.user.phase_receive r with hover | ⟨hcancelled, -⟩ | hsame
  · exact hover
  · exact absurd hcancelled hr
  · rw [hsame]
    exact h.staying t (List.mem_of_getElem? ht) hretired

/-- Whatever happens, as long as nothing disturbs it. -/
theorem Steady.next
    (hx : s.controller.post.scenario.executor = .constantConcurrency concurrency duration)
    (h : s.Steady concurrency duration) (hs : ∀ p ∈ s.crew.standings, p.Sound)
    (hbalanced : s.crew.Balanced) (hwelcomes : s.controller.Welcomes) {choice : Choice}
    (hcancelled : ∀ i, choice ≠ .reply i .cancelled) (hnext : (s.next w choice).Undisturbed) :
    (s.next w choice).Steady concurrency duration := by
  cases choice with
  | abort => cases hnext.going
  | controller now => exact h.stepController hx hs hbalanced hwelcomes hnext
  | refuse => exact h.refuse
  | user i now =>
    rw [Scene.next] at hnext ⊢
    cases hi : s.user? i with
    | none => exact h
    | some t =>
      rw [hi] at hnext
      exact h.stepUser hi now hnext
  | reply i r => exact h.reply i fun hr => hcancelled i (by rw [hr])
  | crash i =>
    rw [Scene.next] at hnext ⊢
    cases hi : s.user? i with
    | none => exact h
    | some t =>
      rw [hi] at hnext
      -- A crash is a disturbance, so the run that follows cannot be undisturbed.
      refine absurd ⟨i, { t with user := t.user.crash }, ?_, rfl⟩ hnext.calm
      exact thread_modifyUser.2 ⟨t, (user?_eq_some hi).1, by rw [if_pos rfl]⟩
  | leave i =>
    rw [Scene.next]
    cases hi : s.user? i with
    | none => exact h.leave hi
    | some t => exact h

/-- At first there is nobody who could have ended. -/
theorem steady_start (w : Waiting) (gens : Nat → Random.Generator) (post : Post) :
    (start w gens post).Steady concurrency duration := by
  have hgrown : Crew.empty.Grown :=
    ⟨⟨rfl, rfl, fun _ ht => by cases ht⟩, rfl, rfl, fun _ _ hr => by cases hr⟩
  refine ⟨?_, ?_, rfl, rfl, fun _ ht => by cases ht⟩
  · show (Controller.new w gens post).Mans concurrency
    rw [Controller.new]
    cases post.scenario.startTime.isZero <;> exact ⟨hgrown, rfl, rfl⟩
  · show (Controller.new w gens post).Timely duration _
    rw [Controller.new]
    cases post.scenario.startTime.isZero <;> trivial

/-- In every run that nothing disturbs. -/
theorem steady_run (w : Waiting) (gens : Nat → Random.Generator) {post : Post}
    (hx : post.scenario.executor = .constantConcurrency concurrency duration)
    (choices : List Choice) (hcancelled : ∀ i, .reply i .cancelled ∉ choices)
    (h : ((start w gens post).run w choices).Undisturbed) :
    ((start w gens post).run w choices).Steady concurrency duration := by
  induction choices using List.reverseRecOn with
  | nil => exact steady_start w gens post
  | append_singleton choices choice ih =>
    rw [run_concat] at h ⊢
    have hold := ih (fun i hi => hcancelled i (List.mem_append_left _ hi)) h.of_next
    have hchoice : ∀ i, choice ≠ .reply i .cancelled := fun i hc =>
      hcancelled i (List.mem_append_right _ (List.mem_singleton.2 hc.symm))
    refine hold.next ?_ (run_sound w gens post choices) (balanced_run w gens post choices)
      (kept_run w gens post choices).welcomes hchoice h
    rw [run_post]
    exact hx

/-! ## As long as all users are at work -/

/-- Only a step of the controller begins or ends what its crew is in the middle of, unless a user is
refused its thread, and only it starts users. -/
theorem crew_next {choice : Choice} (h : ∀ now, choice ≠ .controller now) :
    (s.next w choice).crew.threads.length = s.crew.threads.length ∧
      ((s.next w choice).crew.task = s.crew.task ∨
        choice = .refuse ∧ (∃ u, s.crew.task = .launches u) ∧
          (s.next w choice).crew.task = .dropsNewActive) := by
  rcases next_cases w s choice with ⟨now, rfl⟩ | rfl | ⟨i, rfl, hi⟩ | hu
  · exact absurd rfl (h now)
  · show s.crew.refuse.threads.length = _ ∧
      (s.crew.refuse.task = _ ∨ _ ∧ _ ∧ s.crew.refuse.task = _)
    rcases s.crew.refuse_cases with hr | ⟨u, ht, hr⟩ <;> rw [hr]
    · exact ⟨rfl, .inl rfl⟩
    · exact ⟨rfl, .inr ⟨rfl, ⟨u, ht⟩, rfl⟩⟩
  · rw [next, hi]
    exact ⟨s.crew.length_leave i, .inl (s.crew.task_leave i).1⟩
  · exact ⟨hu.length, .inl hu.task⟩

/-- Whether all users should be there is told by the controller alone. -/
theorem isManned_next {choice : Choice} (h : ∀ now, choice ≠ .controller now) :
    (s.next w choice).controller.isManned = s.controller.isManned := by
  have hidle : (s.next w choice).controller.crew.isIdle = s.controller.crew.isIdle := by
    show (s.next w choice).crew.isIdle = s.crew.isIdle
    rw [Crew.isIdle, Crew.isIdle]
    rcases (crew_next h).2 with htask | ⟨-, ⟨u, hold⟩, hnew⟩
    · rw [htask]
    · rw [hold, hnew]
  rw [Controller.isManned, Controller.isManned, phase_next h, hidle]

/-- Whether `n` users are at work, and never was another one started: nobody is told to retire, on
the way out, or joined. -/
structure AllAtWork (n : Nat) (s : Scene) : Prop where
  length : s.crew.threads.length = n
  live : s.crew.live = List.range n
  draining : s.crew.draining = []
  joined : s.joined = []
  active : s.crew.gauge.active = n
  running : s.crew.gauge.running = n
  peak : s.crew.gauge.peak = n
  spawned : s.crew.gauge.spawned = n
  working : ∀ i < n, ∃ t, s.user? i = some t ∧ t.retired = false ∧ t.exit = .staying

/-- When all users should be there, all of them are at work. -/
theorem Steady.allAtWork (h : s.Steady concurrency duration) (hs : ∀ p ∈ s.crew.standings, p.Sound)
    (hbalanced : s.crew.Balanced) (hledger : s.Ledger) (hmanned : s.controller.isManned = true) :
    s.AllAtWork concurrency := by
  obtain ⟨hgrown, htask, hlength⟩ : s.crew.Grown ∧ s.crew.task.FindsNobody s.crew.live ∧
      s.crew.threads.length = concurrency := h.mans.of_isManned hmanned
  have hintact := hgrown.intact
  obtain ⟨-, hpeak, hspawned⟩ := hgrown.manned htask hlength
  obtain ⟨-, -, hactive, hrunning, -⟩ := htask.counts
  obtain ⟨ha, hr⟩ := hintact.gauge hs hbalanced
  refine ⟨hlength, by rw [hintact.live, hlength], hintact.draining, ?_, ?_, ?_, hpeak, hspawned,
    fun i hi => ?_⟩
  · refine List.eq_nil_iff_forall_not_mem.2 fun i hi => ?_
    exact hintact.not_exited hs i (hledger.joined i hi)
  · rw [ha, hactive, hlength, Nat.add_zero]
  · rw [hr, hrunning, hlength, Nat.add_zero]
  · rw [← hlength] at hi
    have ht : s.crew.threads[i] ∈ s.crew.threads := List.getElem_mem hi
    have hretired := hintact.staying _ ht
    have hfresh := hintact.fresh hs _ (List.mem_map_of_mem ht)
    refine ⟨s.crew.threads[i], ?_, hretired, congrArg Standing.exit hfresh⟩
    rw [user?, List.getElem?_eq_getElem hi, Option.filter_some, h.staying _ ht hretired]
    rfl

/-! ## When the controller has ended -/

/-- Where every user can be started and none is ended by an error, nothing fails. -/
theorem unhindered_run (w : Waiting) (gens : Nat → Random.Generator) (post : Post)
    (choices : List Choice) (hrefuse : .refuse ∉ choices)
    (hcalm : ¬((start w gens post).run w choices).SomeCrashed) :
    ((start w gens post).run w choices).controller.Unhindered := by
  induction choices using List.reverseRecOn with
  | nil => exact ⟨rfl, Crew.Task.noConfusion, Crew.Task.noConfusion⟩
  | append_singleton choices choice ih =>
    rw [run_concat] at hcalm ⊢
    have hold := ih (fun hr => hrefuse (List.mem_append_left _ hr))
      fun hc => hcalm (hc.next choice)
    have hgives := givesUp_run w gens post choices
    generalize (start w gens post).run w choices = s at hcalm hold hgives
    by_cases hcontroller : ∃ now, choice = .controller now
    · obtain ⟨now, rfl⟩ := hcontroller
      have hst := s.controller.steps w now s.aborted
      refine hold.steps hst fun i rest he => ?_
      rw [he] at hst
      obtain ⟨-, hi, hj⟩ := hst.of_breaks hgives.ledger.departed
      obtain ⟨t, ht, hphase⟩ := crashed_of_join? hgives.leaving hi hj
      exact hcalm (SomeCrashed.next ⟨i, t, ht, hphase⟩ _)
    · have hother (now : Span) : choice ≠ .controller now := fun hc => hcontroller ⟨now, hc⟩
      obtain ⟨-, htask | ⟨rfl, -⟩⟩ := crew_next (w := w) (s := s) hother
      · refine ⟨by rw [controller_next w hother]; exact hold.broken, ?_⟩
        show (s.next w choice).crew.task ≠ _ ∧ (s.next w choice).crew.task ≠ _
        rw [htask]
        exact hold.task
      · exact absurd (List.mem_concat_self ..) hrefuse

/-- What the report of a scenario says that ran for its time with all its users. -/
structure Fulfils (concurrency : Nat) (duration : Span) (report : ScenarioReport) : Prop where
  spawned : report.vusSpawned = concurrency
  peak : report.peakVus = concurrency
  interrupted : report.interrupted = false
  elapsed : duration ≤ report.elapsed

/-- If no user was interrupted, no joined user says so. -/
theorem not_interrupted (hgives : s.GivesUp) (htallied : s.Tallied)
    (hnobody : ∀ t ∈ s.crew.threads, t.user.phase ≠ .ended true) {report : ScenarioReport}
    (hphase : s.controller.phase = .ended report) : s.crew.interrupted = false := by
  have hcalm : s.controller.broken = false := by
    have h := hgives.calm
    rwa [Controller.Calm, hphase] at h
  have hnone : s.givenUp = [] := by
    by_contra hne
    rw [(hgives.failed hne).1] at hcalm
    cases hcalm
  have hret : s.controller.hasReturned = true := by rw [Controller.hasReturned, hphase]
  have hall : s.joined.Perm (List.range s.crew.threads.length) := by
    have h := hgives.settled hret
    rwa [hnone, List.append_nil] at h
  rw [Crew.interrupted, Bool.eq_false_iff]
  intro hany
  obtain ⟨t, ht, hended⟩ := (Crew.any_interrupted (htallied.reports hcalm) hall).1 hany
  exact hnobody t ht hended

/-- A controller that returns has kept all users for the whole time. -/
theorem Steady.fulfils (h : s.Steady concurrency duration) (hgives : s.GivesUp)
    (htallied : s.Tallied) (hnobody : ∀ t ∈ s.crew.threads, t.user.phase ≠ .ended true)
    {report : ScenarioReport} (hphase : s.controller.phase = .ended report) :
    s.crew.threads.length = concurrency ∧ Fulfils concurrency duration report := by
  have hmans := h.mans
  have htimely := h.timely
  rw [Controller.Mans, hphase] at hmans
  rw [Controller.Timely, hphase] at htimely
  obtain ⟨-, hmanned, hspawned, hpeak, hinterrupted⟩ := hmans
  have hcrew : s.controller.crew.interrupted = false :=
    not_interrupted hgives htallied hnobody hphase
  refine ⟨hmanned.length, hspawned.trans hmanned.spawned, hpeak.trans hmanned.peak, ?_, htimely⟩
  rw [hinterrupted, h.cut, hcrew]
  rfl

/-- A controller that is over has ended with a report, or it has failed, or an error ended it. -/
theorem ended_or_failed_or_crashed {c : Controller} (h : c.isOver = true) :
    (∃ report, c.phase = .ended report) ∨ c.phase = .failed ∨ c.phase = .crashed := by
  rw [Controller.isOver] at h
  split at h
  · rename_i report hphase
    exact .inl ⟨report, hphase⟩
  · exact .inr (.inl (by assumption))
  · exact .inr (.inr (by assumption))
  · cases h

/-- **Constant concurrency stays constant.**  In every run of a scenario with a constant number of
users in which the clock never goes back, nobody aborts the run, the target cancels no request, and
no user is ended by an error:

* never are more users started than that number;
* with the last one of them the scenario is manned;
* as long as it is manned, all users are at work: all are active and running, none is told to
  retire, none was joined, and both the peak and the number of all started users are that number;
* it stays manned until the controller sees its deadline, which lies the duration after a reading of
  the clock, or the sum of some spans is too great;
* when the controller has ended, it has a report that says so, it was not interrupted, and at least
  the duration has passed; or some user could not be started, or a sum was too great. -/
theorem constant_concurrency (w : Waiting) (gens : Nat → Random.Generator) {post : Post}
    {concurrency : Nat} {duration : Span}
    (hx : post.scenario.executor = .constantConcurrency concurrency duration)
    (choices : List Choice) (hcancelled : ∀ i, .reply i .cancelled ∉ choices)
    (h : ((start w gens post).run w choices).Undisturbed) :
    let s := (start w gens post).run w choices
    s.crew.threads.length ≤ concurrency ∧
    (∀ choice, s.crew.threads.length < concurrency →
      (s.next w choice).crew.threads.length = concurrency →
        (s.next w choice).controller.isManned = true) ∧
    (s.controller.isManned = true → s.AllAtWork concurrency) ∧
    (∀ choice, s.controller.isManned = true → (s.next w choice).controller.isManned ≠ true →
      ∃ now, choice = .controller now ∧ (s.CrashesAt now ∨
        ∃ deadline, s.controller.phase = .deciding (.untilTime deadline) ∧ deadline ≤ now ∧
          s.controller.Deadline duration s.readings deadline)) ∧
    (s.controller.isOver = true →
      (∃ report, s.controller.phase = .ended report ∧ s.crew.threads.length = concurrency ∧
        Fulfils concurrency duration report) ∨
      (s.controller.phase = .failed ∧ .refuse ∈ choices) ∨
      (s.controller.phase = .crashed ∧ ∃ before now after,
        choices = before ++ .controller now :: after ∧
          ((start w gens post).run w before).CrashesAt now)) := by
  intro s
  have hsteady : s.Steady concurrency duration := steady_run w gens hx choices hcancelled h
  have hpost : s.controller.post.scenario.executor = .constantConcurrency concurrency duration := by
    rw [show s.controller.post = post from run_post w gens post choices]
    exact hx
  have hsound : ∀ p ∈ s.crew.standings, p.Sound := run_sound w gens post choices
  have hbalanced : s.crew.Balanced := balanced_run w gens post choices
  have hgives : s.GivesUp := givesUp_run w gens post choices
  have htimed : s.controller.Timed w := timed_run w gens post choices
  refine ⟨hsteady.mans.length_le, fun choice hbefore hafter => ?_,
    hsteady.allAtWork hsound hbalanced hgives.ledger, fun choice hbefore hafter => ?_,
    fun hover => ?_⟩
  -- Only the controller starts users, so only its step can fill the crew.
  · by_cases hcontroller : ∃ now, choice = .controller now
    · obtain ⟨now, rfl⟩ := hcontroller
      exact hsteady.mans.fills (s.controller.steps w now s.aborted) hbefore hafter
    · have hlength := (crew_next (w := w) (s := s) fun now hc => hcontroller ⟨now, hc⟩).1
      omega
  -- And only its step can leave the time in which the crew is to be kept.
  · by_cases hcontroller : ∃ now, choice = .controller now
    · obtain ⟨now, rfl⟩ := hcontroller
      refine ⟨now, rfl, ?_⟩
      rcases hsteady.mans.leaves hpost (s.controller.steps w now s.aborted) (h.minds w now) hbefore
        hafter with hcrashed | ⟨deadline, hphase, hover⟩
      · rcases (next_crashed_iff htimed (.controller now)).1 hcrashed with hphase | ⟨_, hnow, ho⟩
        · rw [Controller.isManned, hphase] at hbefore
          cases hbefore
        · cases hnow
          exact .inl ho
      · have htimely := hsteady.timely
        rw [Controller.Timely, hphase] at htimely
        exact .inr ⟨deadline, hphase, hover, htimely deadline rfl⟩
    · exact absurd ((isManned_next fun now hc => hcontroller ⟨now, hc⟩).trans hbefore) hafter
  -- Three ends: with a report, broken up, or by a sum of times that overflows.
  · rcases ended_or_failed_or_crashed hover with ⟨report, hphase⟩ | hphase | hphase
    · have hnobody : ∀ t ∈ s.crew.threads, t.user.phase ≠ .ended true := by
        intro t ht hended
        obtain ⟨i, hi⟩ := List.mem_iff_getElem?.1 ht
        rcases interrupted_start w gens post choices hi hended with haborted | hmem
        · cases haborted.symm.trans h.going
        · exact hcancelled i hmem
      exact .inl ⟨report, hphase,
        hsteady.fulfils hgives (tallied_run w gens post choices) hnobody hphase⟩
    · refine .inr (.inl ⟨hphase, ?_⟩)
      by_contra hrefuse
      have hmans := hsteady.mans
      rw [Controller.Mans, hphase] at hmans
      cases (unhindered_run w gens post choices hrefuse h.calm).broken.symm.trans hmans.2.2
    · refine .inr (.inr ⟨hphase, ?_⟩)
      have hstart : (start w gens post).controller.phase ≠ .crashed := by
        show (Controller.new w gens post).phase ≠ .crashed
        rw [Controller.new]
        cases post.scenario.startTime.isZero <;> exact fun h => by cases h
      exact ((run_crashed_iff (Controller.timed_new w gens post) choices).1 hphase).resolve_left
        hstart

/-- Two users for a millisecond. -/
def stay : Post := { scenario := .new "stay" (.constantConcurrency 2 (.millis 1)), groups := [] }

/-- Both users are started, the first one completes an iteration, and the controller looks once for
users that are gone. -/
def settling : List Choice :=
  .replicate 24 (.controller .zero) ++ .replicate 8 (.user 0 .zero)

/-- When the millisecond is over, both are told to retire, and they leave. -/
def stayed : List Choice :=
  settling ++ List.flatten
    [.replicate 7 (.controller (.millis 1)), [.user 0 (.millis 1), .user 1 (.millis 1)],
      .replicate 4 (.leave 0), .replicate 4 (.leave 1), .replicate 4 (.controller (.millis 1))]

/-- What has come of the two users. -/
def staying (choices : List Choice) : Scene :=
  (start .whole (.seeded 0 "stay") stay).run .whole choices

/-- What can be checked of a run: the clock goes on, nobody aborts, and nobody is ended by an error.
-/
theorem undisturbed_stay {choices : List Choice} (hforward : (staying choices).Forward)
    (hgoing : (staying choices).aborted = false)
    (hcalm : ((staying choices).crew.threads.all
      fun t => !(t.user.phase matches .crashed)) = true) :
    (staying choices).Undisturbed := by
  refine ⟨hforward, hgoing, ?_⟩
  rintro ⟨i, t, ht, hphase⟩
  have hnot := List.all_eq_true.1 hcalm t (List.mem_of_getElem? ht)
  rw [hphase] at hnot
  cases hnot

/-- Both users are at work when the controller has looked for them, and the report says so. -/
theorem constant_concurrency_stay :
    (staying settling).AllAtWork 2 ∧
      ∃ report, (staying stayed).controller.phase = .ended report ∧
        Fulfils 2 (.millis 1) report := by
  have hsettling : (staying settling).Undisturbed :=
    undisturbed_stay (by decide +kernel) (by decide +kernel) (by decide +kernel)
  have hstayed : (staying stayed).Undisturbed :=
    undisturbed_stay (by decide +kernel) (by decide +kernel) (by decide +kernel)
  have hmanned : (staying settling).controller.isManned = true := by decide +kernel
  have hreported : (staying stayed).controller.report?.isSome = true := by decide +kernel
  have hover : (staying stayed).controller.isOver = true := by decide +kernel
  obtain ⟨-, -, hwork, -⟩ := constant_concurrency .whole (.seeded 0 "stay") rfl settling
    (notMem_cancelled (by decide +kernel)) hsettling
  obtain ⟨-, -, -, -, hends⟩ := constant_concurrency .whole (.seeded 0 "stay") rfl stayed
    (notMem_cancelled (by decide +kernel)) hstayed
  refine ⟨hwork hmanned, ?_⟩
  rw [staying] at hreported ⊢
  rcases hends hover with ⟨report, hphase, -, hfulfils⟩ | ⟨hphase, -⟩ | ⟨hphase, -⟩
  · exact ⟨report, hphase, hfulfils⟩
  · rw [Controller.report?, hphase] at hreported
    cases hreported
  · rw [Controller.report?, hphase] at hreported
    cases hreported

end Scene

end LoadReplay
