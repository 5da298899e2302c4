import LoadReplay.Proofs.Turnover

/-!
# Scenes are turnovers

The steps of a scene that change its counters are steps that a turnover can make, whatever else the
controller and the users do in between.  So a scene is followed by a turnover that makes such a step
when the scene does, and none when nothing of it changes: when the controller looks which threads
have exited, joins users, or waits, and when users go on.

A turnover that follows a scene has the same counts, and its users stand where those of the scene
do (`Turnover.Mirrors`).  The controller is the one who starts users, and who tells them to retire.

Main statement: `Scene.exists_turnover`.
-/

namespace LoadReplay

namespace Crew

/-- A task as far as it starts a user. -/
def Task.entry : Task → Task
  | .dropsActive | .inspects _ _ _ _ | .joins _ _ => .none
  | t => t

/-- How many users are told to retire and about to be counted as no longer active. -/
def Task.toCount : Task → Nat
  | .dropsActive => 1
  | _ => 0

theorem Task.IsEntry.entry {t : Task} (h : t.IsEntry) : t.entry = t ∧ t.toCount = 0 := by
  cases t with
  | dropsActive | inspects | joins => exact h.elim
  | _ => exact ⟨rfl, rfl⟩

/-- Two crews that start the same user with the same counts do so in the same way. -/
theorem Works.mirrored {c c' d : Crew} {o : Outcome} (hgauge : d.gauge = c.gauge)
    (hstandings : d.standings = c.standings) (htask : d.task = c.task) (hentry : c.task.IsEntry)
    (hw : c.Works c' o) :
    d.work.1.gauge = c'.gauge ∧ d.work.1.standings = c'.standings ∧ d.work.1.task = c'.task ∧
      c'.task.IsEntry := by
  obtain ⟨threads, live, draining, reports, gauge, task⟩ := d
  obtain rfl : gauge = c.gauge := hgauge
  obtain rfl : task = c.task := htask
  cases hw with
  | idle h => rw [h]; exact ⟨rfl, hstandings, rfl, trivial⟩
  | addsActive _ h | addsRunning _ h | raisesPeak _ _ h | addsSpawned _ h | dropsNewActive h
  | dropsNewRunning h =>
    rw [h]
    exact ⟨rfl, hstandings, rfl, trivial⟩
  | launches u h =>
    rw [h]
    refine ⟨rfl, ?_, rfl, trivial⟩
    rw [standings_launch, ← hstandings]
    exact standings_launch _ u
  | dropsActive h | seesGone _ _ _ _ _ h | seesLeft _ _ _ _ _ h | parts _ _ _ h | joins _ _ _ _ h
  | breaks _ _ _ h | turns h | ends h =>
    rw [h] at hentry
    exact hentry.elim

end Crew

namespace Controller

variable {w : Waiting} {now : Span} {c c' : Controller} {e : Effect}

/-- A controller whose crew is idle may begin to start one user. -/
theorem Acts.entry (hidle : c.crew.task = .none) (ha : c.Acts w now c' e) :
    c'.crew.task.entry = .none ∨ ∃ u, c'.crew.task = .addsActive u := by
  have hnone : c.crew.task.entry = .none := by rw [hidle]; rfl
  cases ha with
  | recruits | spawns => exact .inr ⟨_, rfl⟩
  | finishesReaping | aims | looks => exact .inl rfl
  | retires =>
    rcases c.crew.retireNewest_cases with hr | ⟨front, i, -, hr⟩ <;> rw [hr]
    · exact .inl hnone
    · rw [Crew.task_tell]
      split <;> exact .inl rfl
  | tells i =>
    left
    show (c.crew.tell i).task.entry = .none
    rw [Crew.task_tell]
    split <;> rfl
  | joins _ _ _ _ _ _ hj =>
    obtain ⟨_, _, rfl⟩ := Option.map_eq_some_iff.1 hj
    exact .inl hnone
  | joinedAll last => cases last <;> exact .inl hnone
  | breaks _ _ last => cases last <;> exact .inl hnone
  | _ => exact .inl hnone

end Controller

namespace Turnover

/-- A turnover has the counts of a crew, its users stand where those of the crew do, and they are
started and told to retire by who leads the crew. -/
structure Mirrors (v : Turnover) (c : Crew) : Prop where
  gauge : v.crew.gauge = c.gauge
  standings : v.crew.standings = c.standings
  task : v.crew.task = c.task.entry
  telling : v.telling.length = c.task.toCount

namespace Mirrors

variable {v : Turnover} {c c' : Crew}

/-- Nothing has to be done if nothing changes. -/
theorem congr (h : v.Mirrors c) (hgauge : c'.gauge = c.gauge)
    (hstandings : c'.standings = c.standings) (htask : c'.task.entry = c.task.entry)
    (htelling : c'.task.toCount = c.task.toCount) : v.Mirrors c' :=
  ⟨h.gauge.trans hgauge.symm, h.standings.trans hstandings.symm, h.task.trans htask.symm,
    h.telling.trans htelling.symm⟩

/-- A step of what starts a user. -/
theorem work {o : Crew.Outcome} (h : v.Mirrors c) (hentry : c.task.IsEntry)
    (hw : c.Works c' o) : (v.next .work).Mirrors c' := by
  obtain ⟨htask, htelling⟩ := hentry.entry
  obtain ⟨hgauge, hstandings, htask', hentry'⟩ :=
    hw.mirrored h.gauge h.standings (h.task.trans htask) hentry
  obtain ⟨hafter, hcounted⟩ := hentry'.entry
  exact ⟨hgauge, hstandings, htask'.trans hafter.symm,
    h.telling.trans (htelling.trans hcounted.symm)⟩

/-- A step of what the crew is in the middle of. -/
theorem works {o : Crew.Outcome} (h : v.Mirrors c) (hw : c.Works c' o) :
    ∃ choices, (v.run choices).Mirrors c' := by
  have hstep := hw
  cases hw with
  | idle ht | addsActive _ ht | addsRunning _ ht | raisesPeak _ _ ht | addsSpawned _ ht
  | launches _ ht | dropsNewActive ht | dropsNewRunning ht =>
    exact ⟨[.work], h.work (by rw [ht]; trivial) hstep⟩
  | dropsActive ht =>
    obtain ⟨hgauge, hstandings, htask, htelling⟩ := h
    rw [ht] at htask htelling
    obtain ⟨i, hi⟩ := List.length_eq_one_iff.1 htelling
    refine ⟨[.count 0], ?_⟩
    have hact : v.act (.count 0) =
        { v with
          crew := { v.crew with gauge := v.crew.gauge.dropActive }
          telling := v.telling.eraseIdx 0 } := by
      rw [act, if_pos (by rw [hi]; exact Nat.one_pos)]
    show ((v.act (.count 0)).note _).Mirrors _
    rw [hact, hi]
    exact ⟨congrArg Gauge.dropActive hgauge, hstandings, htask, rfl⟩
  | seesGone _ _ _ _ _ ht | seesLeft _ _ _ _ _ ht | breaks _ _ _ ht | turns ht | ends ht =>
    exact ⟨[], h.congr rfl rfl (by rw [ht]; rfl) (by rw [ht]; rfl)⟩
  | parts roll _ _ ht =>
    refine ⟨[], h.congr ?_ ?_ (by rw [ht]; rfl) (by rw [ht]; rfl)⟩ <;> cases roll <;> rfl
  | joins _ _ _ _ ht hj =>
    obtain ⟨_, _, rfl⟩ := Option.map_eq_some_iff.1 hj
    exact ⟨[], h.congr rfl rfl (by rw [ht]; rfl) (by rw [ht]; rfl)⟩

/-- A user is told to retire. -/
theorem tell (h : v.Mirrors c) (hidle : c.task = .none) {i : Nat} (hi : i < c.threads.length)
    (hgauge : c'.gauge = c.gauge) (hthreads : c'.threads = (c.tell i).threads)
    (htask : c'.task = (c.tell i).task) : (v.next (.tell i)).Mirrors c' := by
  obtain ⟨hgauge', hstandings, htask', htelling⟩ := h
  rw [hidle] at htask' htelling
  have hlt : i < v.crew.nextIndex := by
    rwa [Crew.nextIndex, ← Crew.length_standings, hstandings, Crew.length_standings]
  have hretired : v.crew.isRetired i = c.isRetired i := by
    rw [Crew.isRetired_eq, Crew.isRetired_eq, hstandings]
  have hact : v.act (.tell i) =
      { v with
        crew := v.crew.modify i fun t => { t with retired := true }
        telling := if c.isRetired i then v.telling else v.telling ++ [i] } := by
    rw [act, if_pos hlt, hretired]
  have htold : c'.standings = v.crew.standings.modify i .tell := by
    rw [Crew.standings_congr hthreads, Crew.standings_tell, hstandings]
  show ((v.act (.tell i)).note _).Mirrors _
  rw [hact]
  refine ⟨hgauge'.trans hgauge.symm, (v.crew.standings_tell i).trans htold.symm, ?_, ?_⟩
  · rw [htask, Crew.task_tell]
    refine htask'.trans ?_
    split <;> rfl
  · rw [htask, Crew.task_tell]
    show (if c.isRetired i then v.telling else v.telling ++ [i]).length = _
    rw [List.eq_nil_of_length_eq_zero htelling]
    split <;> rfl

end Mirrors

end Turnover

namespace Scene

variable {w : Waiting} {s : Scene} {v : Turnover}

/-- A step of the controller. -/
theorem Regular.mirrors_controller (hs : s.Regular) (h : v.Mirrors s.crew) {now : Span}
    {c' : Controller} {e : Controller.Effect} (hst : s.controller.Steps w now c' e) :
    ∃ choices, (v.run choices).Mirrors c'.crew := by
  cases hst with
  | acts hidle ha =>
    have hgauge := ha.gauge
    -- A step that tells someone to retire is followed by one choice; that a thread is about to be
    -- counted out is then in `telling`.
    rcases ha.tells_cases hs.tellsOn hidle with ⟨i, hi, hthreads, htask, -⟩ | ⟨hthreads, hcalm⟩
    · have hlt : i < s.crew.threads.length := by
        rw [← Crew.held_of_idle hidle] at hi
        exact hs.listed i (List.mem_append_right _ hi)
      exact ⟨[.tell i], h.tell hidle hlt hgauge hthreads htask⟩
    · have htelling : c'.crew.task.toCount = s.crew.task.toCount := by
        rw [show s.crew.task = .none from hidle]
        cases htask : c'.crew.task with
        | dropsActive => exact absurd htask hcalm
        | _ => rfl
      have hstandings := Crew.standings_congr hthreads
      -- Otherwise the gauge is as it was, and at most a user begins to be counted in.
      rcases ha.entry hidle with hnone | ⟨u, hu⟩
      · exact ⟨[], h.congr hgauge hstandings (by rw [hnone, show s.crew.task = _ from hidle]; rfl)
          htelling⟩
      · have hact : v.act (.enrol u) =
            { v with crew := v.crew.enrol u, enrolled := v.enrolled + 1 } := by
          have hvidle : v.crew.isIdle = true := by
            rw [Crew.isIdle, h.task, show s.crew.task = _ from hidle]
            rfl
          rw [Turnover.act, if_pos hvidle]
        refine ⟨[.enrol u], ?_⟩
        show ((v.act (.enrol u)).note _).Mirrors _
        rw [hact]
        exact ⟨h.gauge.trans hgauge.symm, h.standings.trans hstandings.symm, by rw [hu]; rfl,
          h.telling.trans htelling.symm⟩
  | works _ hw | started _ hw | joined _ _ hw | broken _ _ _ hw | refused _ hw => exact h.works hw

/-- Whatever happens in a scene happens in a turnover that it follows. -/
theorem Regular.mirrors_next (hs : s.Regular) (h : v.Mirrors s.crew) (choice : Choice) :
    ∃ choices, (v.run choices).Mirrors (s.next w choice).crew := by
  -- Whose step it is: the turnover follows the controller and the threads that leave, and rests
  -- meanwhile.
  cases s.next_turn w choice with
  | controller now hc =>
    rw [hc]
    exact hs.mirrors_controller h (s.controller.steps w now s.aborted)
  | refuse hr =>
    rw [hr]
    show ∃ choices, (v.run choices).Mirrors s.crew.refuse
    rcases s.crew.refuse_cases with hsame | ⟨u, ht, hrefuse⟩
    · rw [hsame]
      exact ⟨[], h⟩
    · rw [hrefuse]
      obtain ⟨hgauge, hstandings, htask, htelling⟩ := h
      rw [ht] at htask htelling
      have hv : v.crew.refuse = { v.crew with task := .dropsNewActive } := by
        simp only [Crew.refuse, htask, Crew.Task.entry]
      refine ⟨[.refuse], ?_⟩
      show (({ v with crew := v.crew.refuse } : Turnover).note _).Mirrors _
      rw [hv]
      exact ⟨hgauge, hstandings, rfl, htelling⟩
  | leave i _ hl =>
    rw [hl]
    obtain ⟨hgauge, hstandings, htask, htelling⟩ := h
    refine ⟨[.leave i], ?_, ?_, ?_, ?_⟩
    · show (v.crew.leave i).gauge = (s.crew.leave i).gauge
      rw [Crew.gauge_leave, Crew.gauge_leave, hstandings, hgauge]
    · show (v.crew.leave i).standings = (s.crew.leave i).standings
      rw [Crew.standings_leave, Crew.standings_leave, hstandings]
    · show (v.crew.leave i).task = (s.crew.leave i).task.entry
      rw [(v.crew.task_leave i).1, (s.crew.task_leave i).1, htask]
    · show v.telling.length = (s.crew.leave i).task.toCount
      rw [(s.crew.task_leave i).1, htelling]
  | users hu =>
    exact ⟨[], h.congr hu.gauge hu.standings (by rw [hu.task]) (by rw [hu.task])⟩

/-- Every run of a scene is followed by one of a turnover. -/
theorem exists_turnover (w : Waiting) (gens : Nat → Random.Generator) (post : Post)
    (choices : List Choice) :
    ∃ turns, (Turnover.start.run turns).Mirrors ((start w gens post).run w choices).crew := by
  suffices hrun : ∀ s : Scene, s.Regular → ∀ v : Turnover, v.Mirrors s.crew →
      ∃ turns, (v.run turns).Mirrors (s.run w choices).crew from
    hrun _ (regular_start w gens post) _ ⟨rfl, rfl, rfl, rfl⟩
  induction choices with
  | nil => exact fun _ _ _ h => ⟨[], h⟩
  | cons choice rest ih =>
    intro s hs v h
    obtain ⟨turns, hturns⟩ := hs.mirrors_next (w := w) h choice
    obtain ⟨more, hmore⟩ := ih _ (hs.next choice) _ hturns
    refine ⟨turns ++ more, ?_⟩
    rwa [Turnover.run, List.foldl_append]

end Scene

end LoadReplay
