import LoadReplay.Proofs.Befalls
import LoadReplay.Proofs.CountedDown

/-!
# Bringing the users of a scenario to a target

A controller that is to have `target` live users first tells the newest ones to retire, one after
another, as long as there are more; then it starts users, one after another, as long as there are
fewer and fewer than `target` threads run.  Meanwhile the threads of its users do what they do, and
those that are on their way out lower the counts that the controller looks at.

## Shape of the proof

* `Crew.Scaled` says what has become of the users at every moment of the call: the `kept` oldest
  ones are live, in front of `started` new ones, and the others are told to retire.  Each step of
  the controller keeps it (`Crew.Scaled.works`, `Crew.Scaled.retires`), and what others do does not
  touch it (`Scene.Scales.other`).
* `Crew.toGo` bounds the steps that the controller has still to make.  Each one lowers it
  (`Scene.Scales.controller`), nothing else changes it, so the call returns
  (`Scene.Scales.returns`).
* `Scene.lowerings_add_owes` is what makes sure that nobody is counted down twice.

Main statement: `scale_exact`.
-/

namespace LoadReplay

namespace Crew

/-! ## What becomes of the users -/

/-- What a crew may be in the middle of while it is brought to a target: it counts down a user that
it has told to retire, or starts one that is wanted. -/
def Fits (target : Nat) (c : Crew) : Prop :=
  match c.task with
  | .none | .dropsActive => True
  | .addsActive _ | .addsRunning _ | .raisesPeak _ _ | .addsSpawned _ | .launches _ =>
    c.live.length < target
  | _ => False

/-- What has become of the users of a crew while it is brought to a target: the oldest ones are
still live, and some are started; the others are told to retire, the newest one first. -/
structure Scaled (target kept started : Nat) (c c' : Crew) : Prop where
  live : c'.live = c.live.take kept ++ List.range' c.nextIndex started
  draining : c'.draining = c.draining ++ (c.live.drop kept).reverse
  nextIndex : c'.nextIndex = c.nextIndex + started
  kept_le : kept ≤ c.live.length
  le_kept : min target c.live.length ≤ kept
  /-- Nobody is started before there are too few. -/
  fits : started = 0 ∨ kept + started ≤ target
  told : ∀ i ∈ c.live.drop kept, c'.isRetired i = true

variable {target kept started : Nat} {c c' crew : Crew} {o : Outcome}

/-- At first nobody was told to retire, and nobody was started. -/
theorem Scaled.refl (target : Nat) (c : Crew) : Scaled target c.live.length 0 c c where
  live := by rw [List.take_length]; exact (List.append_nil _).symm
  draining := by rw [List.drop_length]; exact (List.append_nil _).symm
  nextIndex := rfl
  kept_le := Nat.le_refl _
  le_kept := Nat.min_le_right _ _
  fits := .inl rfl
  told i hi := by rw [List.drop_length] at hi; cases hi

/-- The live users are those that were kept and those that were started. -/
theorem Scaled.length (h : Scaled target kept started crew c) : c.live.length = kept + started := by
  rw [h.live, List.length_append, List.length_take, Nat.min_eq_left h.kept_le, List.length_range']

/-- Only the lists of users, their number and who is told to retire matter. -/
theorem Scaled.congr (h : Scaled target kept started crew c) (hlive : c'.live = c.live)
    (hdraining : c'.draining = c.draining) (hlength : c'.threads.length = c.threads.length)
    (htold : ∀ i, c.isRetired i = true → c'.isRetired i = true) :
    Scaled target kept started crew c' :=
  { h with
    live := hlive.trans h.live
    draining := hdraining.trans h.draining
    nextIndex := hlength.trans h.nextIndex
    told := fun i hi => htold i (h.told i hi) }

/-- What a crew may be in the middle of depends on its task and its live users. -/
theorem Fits.congr (h : c.Fits target) (htask : c'.task = c.task) (hlive : c'.live = c.live) :
    c'.Fits target := by
  rw [Fits] at h ⊢
  rwa [htask, hlive]

/-- A new user is the youngest one, and it is wanted. -/
theorem Scaled.launch (h : Scaled target kept started crew c) {u : User} (ht : c.task = .launches u)
    (hlive : c.live.length < target) : Scaled target kept (started + 1) crew (c.launch u) where
  live := by
    show c.live ++ [c.nextIndex] = _
    rw [h.live, h.nextIndex, List.append_assoc, List.range'_1_concat]
  draining := h.draining
  nextIndex := by
    show (c.threads ++ [_]).length = _
    rw [List.length_append, show c.threads.length = _ from h.nextIndex]
    rfl
  kept_le := h.kept_le
  le_kept := h.le_kept
  fits := .inr (by rw [h.length] at hlive; omega)
  told i hi := (Change.launch u ht rfl).isRetired (h.told i hi)

/-- Whoever is told to retire was told. -/
theorem isRetired_tell {i : Nat} (hi : i < c.threads.length) : (c.tell i).isRetired i = true := by
  rw [isRetired_iff, standings_tell, List.getElem?_modify_eq,
    List.getElem?_eq_getElem (by rwa [length_standings])]
  exact ⟨_, rfl, rfl⟩

/-- The newest of the live users is the last one. -/
theorem retireNewest_of_live {front : List Nat} {i : Nat} (h : c.live = front ++ [i]) :
    c.retireNewest = ({ c with live := front, draining := c.draining ++ [i] } : Crew).tell i := by
  simp only [retireNewest, h, List.getLast?_concat, List.dropLast_concat]

/-- The newest user is told to retire while there are too many, and then nobody has been started. -/
theorem Scaled.retires (h : Scaled target kept started crew c) (hmore : target < c.live.length)
    (hlisted : ∀ i ∈ c.live, i < c.threads.length) :
    c.retireNewest.live.length + 1 = c.live.length ∧
      ∃ kept', Scaled target kept' 0 crew c.retireNewest := by
  have hlength := h.length
  obtain rfl : started = 0 := h.fits.resolve_right (by omega)
  obtain ⟨n, rfl⟩ : ∃ n, kept = n + 1 := ⟨kept - 1, by omega⟩
  have hn : n < crew.live.length := h.kept_le
  have hlive : c.live = crew.live.take n ++ [crew.live[n]] := by
    rw [List.take_append_getElem, h.live]
    exact List.append_nil _
  have hdrop : crew.live.drop n = crew.live[n] :: crew.live.drop (n + 1) :=
    List.drop_eq_getElem_cons hn
  have hlast : crew.live[n] < c.threads.length :=
    hlisted _ (by rw [hlive]; exact List.mem_concat_self)
  rw [retireNewest_of_live hlive]
  refine ⟨by rw [hlive, List.length_append]; rfl, n, (List.append_nil _).symm, ?_,
    (List.length_modify _ _ _).trans h.nextIndex, Nat.le_of_lt hn, by omega, .inl rfl,
    fun i hi => ?_⟩
  · show c.draining ++ [crew.live[n]] = _
    rw [h.draining, hdrop, List.reverse_cons, List.append_assoc]
  · rw [hdrop] at hi
    rcases List.mem_cons.1 hi with rfl | hi
    · exact isRetired_tell (c := { c with live := _, draining := _ }) hlast
    · exact (Change.tell (c := c) crew.live[n] rfl).isRetired (h.told i hi)

/-! ## How long it takes -/

/-- A bound of the steps that it takes to bring some number of live users to a target: two for each
one that is to retire, six for each one that is to be started, and one to see that it is done. -/
def stepsTo (target live : Nat) : Nat := 2 * (live - target) + 6 * (target - live) + 1

/-- A bound of the steps that a crew has still to make to be brought to a target. -/
def toGo (target : Nat) (c : Crew) : Nat :=
  match c.task with
  | .addsActive _ => stepsTo target (c.live.length + 1) + 5
  | .addsRunning _ => stepsTo target (c.live.length + 1) + 4
  | .raisesPeak _ _ => stepsTo target (c.live.length + 1) + 3
  | .addsSpawned _ => stepsTo target (c.live.length + 1) + 2
  | .launches _ => stepsTo target (c.live.length + 1) + 1
  | .dropsActive => stepsTo target c.live.length + 1
  | _ => stepsTo target c.live.length

/-- A crew in the middle of nothing has the steps to go that the difference makes. -/
theorem toGo_of_idle (target : Nat) {c : Crew} (hidle : c.task = .none) :
    c.toGo target = stepsTo target c.live.length := by
  rw [toGo, hidle]

/-- There is always a step to go until the call returns: the one that finds nothing to do. -/
theorem toGo_pos (target : Nat) (c : Crew) : 0 < c.toGo target := by
  rw [toGo]
  split <;> exact Nat.succ_pos _

/-- Each step of what a crew is in the middle of brings it nearer to its target. -/
theorem Scaled.works (h : Scaled target kept started crew c) (hfits : c.Fits target)
    (hbusy : c.task ≠ .none) (hw : c.Works c' o) :
    (o = .nothing ∨ o = .started) ∧ c'.Fits target ∧ c'.toGo target < c.toGo target ∧
      ∃ started', Scaled target kept started' crew c' := by
  rw [Fits] at hfits
  cases hw with
  | idle ht => exact absurd ht hbusy
  | addsActive u ht | addsRunning u ht | raisesPeak u _ ht | addsSpawned u ht =>
    rw [ht] at hfits
    refine ⟨.inl rfl, hfits, ?_, started, h.congr rfl rfl rfl fun _ hi => hi⟩
    rw [toGo, toGo, ht]
    exact Nat.lt_succ_self _
  | launches u ht =>
    rw [ht] at hfits
    refine ⟨.inr rfl, trivial, ?_, started + 1, h.launch ht hfits⟩
    rw [toGo, toGo, ht]
    show stepsTo target (c.live ++ [c.nextIndex]).length < _
    rw [List.length_append]
    exact Nat.lt_succ_self _
  | dropsActive ht =>
    refine ⟨.inl rfl, trivial, ?_, started, h.congr rfl rfl rfl fun _ hi => hi⟩
    rw [toGo, toGo, ht]
    exact Nat.lt_succ_self _
  | dropsNewActive ht | dropsNewRunning ht | seesGone _ _ _ _ _ ht | seesLeft _ _ _ _ _ ht
  | parts _ _ _ ht | joins _ _ _ _ ht | breaks _ _ _ ht | turns ht | ends ht =>
    rw [ht] at hfits
    exact hfits.elim

/-- Retiring the newest user leaves the crew in the middle of counting it down, or of nothing. -/
theorem fits_retireNewest (hfits : c.Fits target) : c.retireNewest.Fits target := by
  rcases c.retireNewest_cases with hr | ⟨front, i, -, hr⟩ <;> rw [hr]
  · exact hfits
  · rw [Fits, task_tell]
    cases isRetired _ i <;> trivial

/-- Telling a user to retire takes one step, and counting it down at most another one. -/
theorem toGo_retireNewest (hidle : c.task = .none) (hmore : target < c.live.length)
    (hlive : c.retireNewest.live.length + 1 = c.live.length) :
    c.retireNewest.toGo target < c.toGo target := by
  have hle : c.retireNewest.toGo target ≤ stepsTo target c.retireNewest.live.length + 1 := by
    rcases c.retireNewest_cases with hr | ⟨front, i, -, hr⟩ <;> rw [hr]
    · rw [toGo_of_idle target hidle]
      exact Nat.le_succ _
    · rw [toGo, task_tell]
      cases isRetired _ i
      · exact Nat.le_refl _
      · exact Nat.le_succ _
  refine Nat.lt_of_le_of_lt hle ?_
  rw [toGo_of_idle target hidle, stepsTo, stepsTo]
  omega

/-- Starting a user takes six steps. -/
theorem toGo_enrol (hidle : c.task = .none) (hfewer : c.live.length < target) (u : User) :
    (c.enrol u).toGo target < c.toGo target := by
  rw [toGo_of_idle target hidle]
  show stepsTo target (c.live.length + 1) + 5 < stepsTo target c.live.length
  rw [stepsTo, stepsTo]
  omega

end Crew

namespace Controller

variable (w : Waiting) (target : Nat) (pause : Span) (loop : Loop) (c : Controller)

/-- What a controller does next to have `target` live users. -/
theorem scale_cases :
    target < c.crew.live.length ∧
        c.scale w target pause loop = { c with crew := c.crew.retireNewest } ∨
      (c.crew.live.length < target ∧ c.crew.gauge.running < target) ∧
        c.scale w target pause loop = c.enrol ∨
      (c.crew.live.length ≤ target ∧
          (c.crew.live.length = target ∨ target ≤ c.crew.gauge.running)) ∧
        c.scale w target pause loop = { c with phase := .ticking (.start w pause) loop } := by
  rw [scale, Crew.adjustment]
  by_cases hmore : target < c.crew.live.length
  · rw [if_pos hmore]
    exact .inl ⟨hmore, rfl⟩
  · by_cases hfewer : c.crew.live.length < target ∧ c.crew.gauge.running < target
    · rw [if_neg hmore, if_pos hfewer]
      exact .inr (.inl ⟨hfewer, rfl⟩)
    · rw [if_neg hmore, if_neg hfewer]
      exact .inr (.inr ⟨⟨by omega, by omega⟩, rfl⟩)

/-- While a controller scales and its crew is in the middle of nothing, its step is one of scaling.
-/
theorem step_of_scaling (now : Span) (aborted : Bool) {target : Nat} {pause : Span} {loop : Loop}
    {c : Controller} (hidle : c.crew.task = .none) (hphase : c.phase = .scaling target pause loop) :
    (c.step w now aborted).1 = c.scale w target pause loop := by
  have hnothing : c.crew.isIdle = true := by rw [Crew.isIdle, hidle]
  rw [step, if_pos hnothing, act, hphase]

variable {w : Waiting} {now : Span} {c c' : Controller} {e : Effect}

/-- A controller in the middle of something goes on with it. -/
theorem Steps.works_of_busy (hst : c.Steps w now c' e) (hbusy : c.crew.task ≠ .none) :
    ∃ o, c.crew.Works c'.crew o ∧
      (o = .nothing ∨ o = .started → c' = { c with crew := c'.crew }) := by
  cases hst with
  | acts hidle => exact absurd hidle hbusy
  | works _ hw | started _ hw => exact ⟨_, hw, fun _ => rfl⟩
  | joined _ _ hw | broken _ _ _ hw | refused _ hw =>
    exact ⟨_, hw, fun ho => by rcases ho with ho | ho <;> cases ho⟩

/-- Nobody was just told to retire unless the crew is about to count somebody down. -/
theorem told_ne_of_task {i : Nat} (h : c.crew.task ≠ .dropsActive) : c.told ≠ some i := by
  rw [told_of_task h]
  exact (Option.some_ne_none i).symm

/-- Whoever has been told to retire is not told again. -/
theorem Steps.told_ne (htells : c.TellsOn) {i : Nat} (hretired : c.crew.isRetired i = true)
    (hst : c.Steps w now c' e) : c'.told ≠ some i := by
  cases hst with
  | acts hidle ha =>
    rcases ha.tells_cases htells hidle with ⟨j, -, -, htask, htold⟩ | ⟨-, hcalm⟩
    · rw [Crew.task_tell] at htask
      by_cases hj : c.crew.isRetired j = true
      · rw [if_pos hj] at htask
        exact told_ne_of_task (by rw [htask]; exact Crew.Task.noConfusion)
      · rw [if_neg hj] at htask
        rw [htold htask, ne_eq, Option.some.injEq]
        rintro rfl
        exact hj hretired
    · exact told_ne_of_task hcalm
  | works _ hw | started _ hw | joined _ _ hw | broken _ _ _ hw | refused _ hw =>
    exact told_ne_of_task hw.task_ne

end Controller

/-! ## The call -/

namespace Scene

/-- A scenario whose controller turns to having `target` live users.  If it is about to do so
anyway, this changes nothing. -/
def scaling (s : Scene) (target : Nat) (pause : Span) (loop : Controller.Loop) : Scene :=
  { s with controller := { s.controller with phase := .scaling target pause loop } }

/-- A scenario in the middle of having its users brought to a target, and which crew it had when
this began. -/
structure Scales (target : Nat) (pause : Span) (loop : Controller.Loop) (crew : Crew)
    (s : Scene) : Prop where
  regular : s.Regular
  phase : s.controller.phase = .scaling target pause loop
  fits : s.crew.Fits target
  scaled : ∃ kept started, crew.Scaled target kept started s.crew

/-- The next step of the controller ends the call. -/
structure Settles (w : Waiting) (target : Nat) (pause : Span) (loop : Controller.Loop) (s : Scene)
    (now : Span) : Prop where
  idle : s.crew.task = .none
  length_le : s.crew.live.length ≤ target
  enough : s.crew.live.length = target ∨ target ≤ s.crew.gauge.running
  returns : (s.next w (.controller now)).controller =
    { s.controller with phase := .ticking (.start w pause) loop }

variable {w : Waiting} {target : Nat} {pause : Span} {loop : Controller.Loop} {crew : Crew}
  {s : Scene}

/-- Whether it is the controller's turn. -/
def Choice.isController : Choice → Bool
  | .controller _ => true
  | _ => false

/-- A call begins at any moment at which the controller is in the middle of nothing. -/
theorem Regular.scaling (h : s.Regular) (hidle : s.crew.task = .none) :
    (s.scaling target pause loop).Scales target pause loop s.crew where
  regular :=
    { h with
      rests := trivial
      listed := fun i hi => h.listed i (List.mem_append_right _ hi)
      tellsOn := fun _ hphase => by cases hphase }
  phase := rfl
  fits := by rw [Crew.Fits, show (s.scaling target pause loop).crew.task = _ from hidle]; trivial
  scaled := ⟨_, _, Crew.Scaled.refl target s.crew⟩

/-- A step of the controller brings it nearer to the end of the call, or ends it. -/
theorem Scales.controller (h : s.Scales target pause loop crew) (now : Span) :
    ((s.next w (.controller now)).Scales target pause loop crew ∧
      (s.next w (.controller now)).crew.toGo target < s.crew.toGo target) ∨
    s.Settles w target pause loop now := by
  have hregular := h.regular.next (w := w) (.controller now)
  -- What is to be seen of the step is the crew behind it.
  have hgoesOn : ∀ c', (s.controller.step w now s.aborted).1 = { s.controller with crew := c' } →
      c'.Fits target → (∃ kept started, crew.Scaled target kept started c') →
      c'.toGo target < s.crew.toGo target →
      (s.next w (.controller now)).Scales target pause loop crew ∧
        (s.next w (.controller now)).crew.toGo target < s.crew.toGo target := by
    intro c' hstep hfits hscaled hnearer
    have hcontroller : (s.next w (.controller now)).controller = { s.controller with crew := c' } :=
      hstep
    have hcrew : (s.next w (.controller now)).crew = c' := by rw [Scene.crew, hcontroller]
    exact ⟨⟨hregular, by rw [hcontroller]; exact h.phase, by rwa [hcrew], by rwa [hcrew]⟩,
      by rwa [hcrew]⟩
  obtain ⟨kept, started, hscaled⟩ := h.scaled
  by_cases hidle : s.crew.task = .none
  · have hstep := Controller.step_of_scaling w now s.aborted hidle h.phase
    have hlive : ∀ i ∈ s.crew.live, i < s.crew.threads.length := fun i hi =>
      h.regular.ordered.started i (by rwa [Crew.roll_of_idle hidle])
    rcases s.controller.scale_cases w target pause loop with
      ⟨hmore, hscale⟩ | ⟨hfewer, hscale⟩ | ⟨hdone, hscale⟩
    · obtain ⟨hlength, kept', hscaled'⟩ := hscaled.retires hmore hlive
      exact .inl (hgoesOn _ (hstep.trans hscale) (Crew.fits_retireNewest h.fits)
        ⟨kept', 0, hscaled'⟩ (Crew.toGo_retireNewest hidle hmore hlength))
    · exact .inl (hgoesOn _ (hstep.trans hscale) hfewer.1
        ⟨kept, started, hscaled.congr rfl rfl rfl fun _ hi => hi⟩
        (Crew.toGo_enrol hidle hfewer.1 _))
    · exact .inr ⟨hidle, hdone.1, hdone.2, hstep.trans hscale⟩
  · obtain ⟨o, hw, hstep⟩ := (s.controller.steps w now s.aborted).works_of_busy hidle
    obtain ⟨ho, hfits, hnearer, started', hscaled'⟩ := hscaled.works h.fits hidle hw
    exact .inl (hgoesOn _ (hstep ho) hfits ⟨kept, started', hscaled'⟩ hnearer)

/-- What others do has no part in the call, but for a thread that cannot be started. -/
theorem Scales.other (h : s.Scales target pause loop crew) {choice : Choice}
    (hc : ∀ now, choice ≠ .controller now) (hr : choice ≠ .refuse) :
    (s.next w choice).Scales target pause loop crew ∧
      (s.next w choice).crew.toGo target = s.crew.toGo target := by
  have hsame : (s.next w choice).crew.task = s.crew.task ∧
      (s.next w choice).crew.live = s.crew.live ∧
      (s.next w choice).crew.draining = s.crew.draining ∧
      (s.next w choice).crew.threads.length = s.crew.threads.length := by
    rcases next_cases w s choice with ⟨now, rfl⟩ | rfl | ⟨i, rfl, hi⟩ | hu
    · exact absurd rfl (hc now)
    · exact absurd rfl hr
    · rw [Scene.next, hi]
      obtain ⟨htask, hlive, hdraining⟩ := s.crew.task_leave i
      exact ⟨htask, hlive, hdraining, s.crew.length_leave i⟩
    · exact ⟨hu.task, hu.live, hu.draining, hu.length⟩
  obtain ⟨htask, hlive, hdraining, hlength⟩ := hsame
  obtain ⟨kept, started, hscaled⟩ := h.scaled
  refine ⟨⟨h.regular.next choice, by rw [controller_next w hc]; exact h.phase,
    h.fits.congr htask hlive, kept, started, hscaled.congr hlive hdraining hlength
      fun i hi => isRetired_next hi choice⟩, ?_⟩
  rw [Crew.toGo, Crew.toGo, htask, hlive]

/-- The call returns: the controller is always able to make a step, and after some number of steps
it makes the last one. -/
theorem Scales.returns (h : s.Scales target pause loop crew) {choices : List Choice}
    (hr : .refuse ∉ choices)
    (henough : s.crew.toGo target ≤ choices.countP Choice.isController) :
    ∃ before now after, choices = before ++ .controller now :: after ∧
      (∀ part, part <+: before → (s.run w part).Scales target pause loop crew) ∧
      (s.run w before).Settles w target pause loop now := by
  induction choices generalizing s with
  | nil => exact absurd (s.crew.toGo_pos target) (Nat.not_lt_of_le henough)
  | cons choice rest ih =>
    have hr' : .refuse ∉ rest := fun hmem => hr (List.mem_cons_of_mem _ hmem)
    -- If the call goes on after the first choice, it returns with one of the others.
    have hlater : (s.next w choice).Scales target pause loop crew →
        (s.next w choice).crew.toGo target ≤ rest.countP Choice.isController →
        ∃ before now after, choice :: rest = before ++ .controller now :: after ∧
          (∀ part, part <+: before → (s.run w part).Scales target pause loop crew) ∧
          (s.run w before).Settles w target pause loop now := by
      intro hscales hle
      obtain ⟨before, now, after, rfl, hall, hsettles⟩ := ih hscales hr' hle
      refine ⟨choice :: before, now, after, rfl, fun part hpart => ?_, hsettles⟩
      rcases List.prefix_cons_iff.1 hpart with rfl | ⟨part', rfl, hpart'⟩
      · exact h
      · exact hall part' hpart'
    by_cases hc : ∃ now, choice = .controller now
    · obtain ⟨now, rfl⟩ := hc
      rcases h.controller (w := w) now with ⟨hscales, hnearer⟩ | hsettles
      · refine hlater hscales ?_
        rw [List.countP_cons_of_pos rfl] at henough
        omega
      · refine ⟨[], now, rest, rfl, fun part hpart => ?_, hsettles⟩
        rw [List.prefix_nil.1 hpart]
        exact h
    · have hother : ∀ now, choice ≠ .controller now := fun now hnow => hc ⟨now, hnow⟩
      obtain ⟨hscales, hsame⟩ := h.other (w := w) hother fun hrefuse => hr (by rw [hrefuse]; simp)
      refine hlater hscales ?_
      rw [hsame]
      refine Nat.le_trans henough (Nat.le_of_eq (List.countP_cons_of_neg ?_))
      cases choice with
      | controller now => exact absurd rfl (hother now)
      | _ => exact Bool.noConfusion

/-! ## Who is counted down -/

/-- A user that was told to retire before is not told anew. -/
theorem Regular.told_ne_next (h : s.Regular) {i : Nat} (hretired : s.crew.isRetired i = true)
    (htold : s.controller.told ≠ some i) (choice : Choice) :
    (s.next w choice).controller.told ≠ some i := by
  rcases next_cases w s choice with ⟨now, rfl⟩ | rfl | ⟨j, rfl, hj⟩ | hu
  · exact (s.controller.steps w now s.aborted).told_ne h.tellsOn hretired
  · rw [Scene.next, modifyCrew]
    rcases s.crew.refuse_cases with hr | ⟨u, -, hr⟩ <;> rw [hr]
    · exact htold
    · exact Controller.told_ne_of_task Crew.Task.noConfusion
  · rw [Scene.next, hj]
    obtain ⟨htask, hlive, hdraining⟩ := s.crew.task_leave j
    have hsame : (s.modifyCrew (·.leave j)).controller.told = s.controller.told :=
      Controller.told_congr rfl htask hlive hdraining
    rwa [hsame]
  · rwa [Controller.told_congr hu.phase hu.task hu.live hu.draining]

/-- Whoever has been told to retire is from then on counted down by its own thread only. -/
theorem Regular.told_ne_run (h : s.Regular) {i : Nat} (hretired : s.crew.isRetired i = true)
    (htold : s.controller.told ≠ some i) (choices : List Choice) :
    (s.run w choices).crew.isRetired i = true ∧ (s.run w choices).controller.told ≠ some i := by
  have hrun := run_induction w
    (p := fun s => s.Regular ∧ s.crew.isRetired i = true ∧ s.controller.told ≠ some i)
    ⟨h, hretired, htold⟩ (fun s choice ⟨h, hretired, htold⟩ =>
      ⟨h.next choice, isRetired_next hretired choice, h.told_ne_next hretired htold choice⟩) choices
  exact hrun.2

end Scene

/-- Whether the thread of a user has told it to retire and is about to count it down itself. -/
def Crew.dropsItself (c : Crew) (i : Nat) : Bool := c.standings[i]?.any (·.exit == .dropsActive)

/-- Whoever has been told to retire is owed nothing but what its own thread is about to do. -/
theorem Controller.owes_of_isRetired {c : Controller} {i : Nat} (h : c.crew.isRetired i = true)
    (htold : c.told ≠ some i) : c.owes i = (c.crew.dropsItself i).toNat := by
  obtain ⟨p, hp, hretired⟩ := Crew.isRetired_iff.1 h
  rw [owes, Crew.dropsItself, hp, beq_false_of_ne htold]
  show (!p.retired || p.exit == .dropsActive).toNat = (p.exit == .dropsActive).toNat
  rw [hretired]
  rfl

namespace Scene

/-- What has come of the users of a scenario when the call that was to bring them to a target
returns. -/
structure Brought (w : Waiting) (target : Nat) (pause : Span) (loop : Controller.Loop)
    (s t : Scene) : Prop where
  /-- The control pause is next, and nothing is left undone. -/
  phase : t.controller.phase = .ticking (.start w pause) loop
  idle : t.crew.task = .none
  /-- The oldest users are kept, and new ones are started after them. -/
  live : t.crew.live = s.crew.live.take target ++
    List.range' s.crew.nextIndex (t.crew.nextIndex - s.crew.nextIndex)
  draining : t.crew.draining = s.crew.draining ++ (s.crew.live.drop target).reverse
  retired : ∀ i ∈ s.crew.live.drop target, t.crew.isRetired i = true
  enough : t.crew.live.length = target ∨ target ≤ t.crew.gauge.running
  /-- The count that was looked at last is the number of threads that were running then. -/
  running : t.crew.gauge.running = t.crew.standings.countP Standing.isRunning

variable {w : Waiting} {target : Nat} {pause : Span} {loop : Controller.Loop} {crew : Crew}
  {s : Scene}

/-- When the controller finds nothing to do, the crew is brought to its target. -/
theorem Settles.brought {s₀ : Scene} {now : Span} (hsettles : s.Settles w target pause loop now)
    (h : s.Scales target pause loop s₀.crew) :
    s₀.Brought w target pause loop (s.next w (.controller now)) := by
  obtain ⟨kept, started, hscaled⟩ := h.scaled
  have hcrew : (s.next w (.controller now)).crew = s.crew := by
    rw [Scene.crew, hsettles.returns]
    rfl
  have hlength := hscaled.length
  have hle := hsettles.length_le
  -- The call ends with as many users kept as the target asks for, or with all that there were.
  have hkept : kept = min target s₀.crew.live.length := by
    have := hscaled.le_kept
    have := hscaled.kept_le
    omega
  have htake : s₀.crew.live.take kept = s₀.crew.live.take target := by
    rw [hkept, ← List.take_take, List.take_length]
  have hdrop : s₀.crew.live.drop kept = s₀.crew.live.drop target := by
    rw [hkept]
    rcases Nat.le_total target s₀.crew.live.length with hlt | hlt
    · rw [Nat.min_eq_left hlt]
    · rw [Nat.min_eq_right hlt, List.drop_length, List.drop_eq_nil_of_le hlt]
  refine ⟨by rw [hsettles.returns], by rw [hcrew]; exact hsettles.idle, ?_, ?_, ?_, ?_, ?_⟩
  · rw [hcrew, hscaled.live, htake, hscaled.nextIndex, Nat.add_sub_cancel_left]
  · rw [hcrew, hscaled.draining, hdrop]
  · rw [hcrew, ← hdrop]
    exact hscaled.told
  · rw [hcrew]
    exact hsettles.enough
  · rw [hcrew, h.regular.balanced.running, hsettles.idle]
    rfl

/-- From any moment at which the controller is in the middle of nothing, the call returns, and pays
what is owed of those that it tells to retire, if their threads do not. -/
theorem Regular.brought (h : s.Regular) (hidle : s.crew.task = .none) {choices : List Choice}
    (hthreads : .refuse ∉ choices)
    (henough : Crew.stepsTo target s.crew.live.length ≤ choices.countP Choice.isController) :
    ∃ before now after, choices = before ++ .controller now :: after ∧
      (∀ part, part <+: before →
        ((s.scaling target pause loop).run w part).controller.phase =
          .scaling target pause loop) ∧
      s.Brought w target pause loop
        ((s.scaling target pause loop).run w (before ++ [.controller now])) ∧
      ∀ i ∈ s.crew.live.drop target, ∀ later,
        lowerings w i (s.scaling target pause loop) (before ++ .controller now :: later) +
            (((s.scaling target pause loop).run w
              (before ++ .controller now :: later)).crew.dropsItself i).toNat =
          s.controller.owes i := by
  have hcall : (s.scaling target pause loop).Scales target pause loop s.crew := h.scaling hidle
  have htoGo : (s.scaling target pause loop).crew.toGo target =
      Crew.stepsTo target s.crew.live.length := Crew.toGo_of_idle target hidle
  -- The controller has enough steps, so the call comes to its end; `hall` is what holds on the way.
  obtain ⟨before, now, after, rfl, hall, hsettles⟩ := hcall.returns (w := w) hthreads
    (by rwa [htoGo])
  have hbefore := hall before List.prefix_rfl
  have hbrought := hsettles.brought hbefore
  have hrun : ∀ later, (s.scaling target pause loop).run w (before ++ .controller now :: later) =
      (((s.scaling target pause loop).run w before).next w (.controller now)).run w later :=
    fun later => List.foldl_append
  refine ⟨before, now, after, rfl, fun part hpart => (hall part hpart).phase, ?_,
    fun i hi later => ?_⟩
  · rw [hrun]
    exact hbrought
  · have hcalm : ∀ {c : Crew}, c.task = .none → c.task ≠ .dropsActive := fun hnone => by
      rw [hnone]
      exact Crew.Task.noConfusion
    obtain ⟨hretired, htold⟩ := (hbefore.regular.next (w := w) (.controller now)).told_ne_run
      (w := w) (hbrought.retired i hi) (Controller.told_ne_of_task (hcalm hbrought.idle)) later
    -- Who was told is owed one lowering, and pays it in the call or by its own thread.
    have hcalled := lowerings_add_owes w i hcall.regular (before ++ .controller now :: later)
    rw [hrun, Controller.owes_of_isRetired hretired htold] at hcalled
    have hthreads' : (s.scaling target pause loop).controller.crew.threads =
        s.controller.crew.threads := rfl
    rw [hrun]
    exact hcalled.trans (Controller.owes_of_task hthreads' (hcalm hidle) (hcalm hidle) i)

/-- The next index is a new one. -/
theorem Regular.lt_nextIndex (h : s.Regular) (hidle : s.crew.task = .none) :
    ∀ i ∈ s.crew.live ++ s.crew.draining, i < s.crew.nextIndex := by
  intro i hi
  have hheld : s.controller.crew.held = s.crew.live ++ s.crew.draining := Crew.held_of_idle hidle
  exact h.listed i (List.mem_append_right _ (by rwa [hheld]))

/-- **Scaling does exactly what is needed.**  Whatever has happened before, and whatever the threads
of the users do meanwhile, a call that is to have `target` live users returns after a bounded number
of steps if threads can be started.  The oldest users are kept, those that are not are told to
retire and are counted down exactly once (their own threads may be about to do so when the call
returns), and only users with new indices are started. -/
theorem scale_exact (w : Waiting) (gens : Nat → Random.Generator) (post : Post)
    (history : List Choice)
    (target : Nat) (pause : Span) (loop : Controller.Loop) (choices : List Choice)
    (hidle : ((start w gens post).run w history).crew.task = .none)
    (hthreads : .refuse ∉ choices)
    (henough : Crew.stepsTo target ((start w gens post).run w history).crew.live.length ≤
      choices.countP Choice.isController) :
    let s := (start w gens post).run w history
    let call := s.scaling target pause loop
    s.crew.live.Pairwise (· < ·) ∧
    (∀ i ∈ s.crew.live ++ s.crew.draining, i < s.crew.nextIndex) ∧
    ∃ before now after, choices = before ++ .controller now :: after ∧
      (∀ part, part <+: before →
        (call.run w part).controller.phase = .scaling target pause loop) ∧
      s.Brought w target pause loop (call.run w (before ++ [.controller now])) ∧
      ∀ i ∈ s.crew.live.drop target, ∀ later,
        lowerings w i (start w gens post) history +
            lowerings w i call (before ++ .controller now :: later) +
            ((call.run w (before ++ .controller now :: later)).crew.dropsItself i).toNat = 1 := by
  have hregular := (regular_start w gens post).run (w := w) history
  have hsorted := hregular.ordered.sorted
  rw [Crew.roll_of_idle hidle] at hsorted
  obtain ⟨before, now, after, hchoices, hphase, hbrought, hpaid⟩ :=
    hregular.brought (w := w) hidle hthreads henough
  refine ⟨hsorted, hregular.lt_nextIndex hidle, before, now, after, hchoices, hphase, hbrought,
    fun i hi later => ?_⟩
  -- A user owes one lowering from its start on, and the history has taken some part of that.
  rw [Nat.add_assoc, hpaid i hi later, lowerings_add_owes w i (regular_start w gens post)]
  exact owes_start w gens post i

/-- A ramp from three users to one. -/
def wane : Post :=
  { scenario := .new "wane" (.rampingConcurrency 3 [⟨.millis 1000, 1⟩] .linear), groups := [] }

/-- The controller starts the three users. -/
def manning : List Choice := .replicate 26 (.controller .zero)

/-- The newest user is ended by an error, and its own thread sets its flag before the controller
tells two users to retire. -/
def owing : List Choice := .crash 2 :: .leave 2 :: .replicate 4 (.controller .zero)

/-- The call returns while a user is still counted as active that has been told to retire: its own
thread was the first to do so, and has not made its next step. -/
theorem scaled_owing :
    let s := (start .whole (.seeded 0 "wane") wane).run .whole manning
    let t := (s.scaling 1 .zero (.untilTime .zero)).run .whole owing
    s.crew.isIdle ∧ s.crew.live = [0, 1, 2] ∧ s.crew.draining = [] ∧ .refuse ∉ owing ∧
      (t.controller.phase matches .ticking ..) ∧
      t.crew.live = [0] ∧ t.crew.draining = [2, 1] ∧ t.crew.isRetired 2 ∧
      lowerings .whole 2 (start .whole (.seeded 0 "wane") wane) manning +
        lowerings .whole 2 (s.scaling 1 .zero (.untilTime .zero)) owing ≠ 1 ∧
      t.crew.gauge.active = 2 := by
  refine ⟨by decide +kernel, by decide +kernel, by decide +kernel, by simp [owing],
    by decide +kernel, by decide +kernel, by decide +kernel, by decide +kernel, by decide +kernel,
    by decide +kernel⟩

/-- The newest user is ended by an error while the controller tells two users to retire. -/
def waning : List Choice :=
  .controller .zero :: .crash 2 :: .leave 2 :: .replicate 4 (.controller .zero)

/-- When its three users are there, a ramp is brought to one user. -/
theorem scale_exact_wane :
    let s := (start .whole (.seeded 0 "wane") wane).run .whole manning
    ∃ t, s.Brought .whole 1 .zero (.untilTime .zero) t ∧ t.crew.draining = [2, 1] := by
  intro s
  have hidle : s.crew.isIdle = true := by decide +kernel
  have hlists : s.crew.live = [0, 1, 2] ∧ s.crew.draining = [] := by decide +kernel
  obtain ⟨-, -, before, now, -, -, -, hbrought, -⟩ :=
    scale_exact .whole (.seeded 0 "wane") wane manning 1 .zero (.untilTime .zero) waning
      (Crew.task_of_isIdle hidle) (by simp [waning]) (by decide +kernel)
  exact ⟨_, hbrought, by rw [hbrought.draining, hlists.1, hlists.2]; rfl⟩

end Scene

end LoadReplay
