import LoadReplay.Proofs.Counting
import LoadReplay.Proofs.Ledger

/-!
# The counters say what the threads do

At every moment the count of running users is the number of threads that have not counted their
users down, and of the user that is about to get its thread; and the same holds of the count of
active users.  Each step changes one thing at a time, so the balance is kept on the way as well
(`Crew.Balanced`).
-/

namespace LoadReplay

namespace Standing

/-- Whether the user counts as running: its thread has not counted it down yet. -/
def isRunning (p : Standing) : Bool :=
  match p.exit with
  | .staying | .dropsActive | .dropsRunning => true
  | .closing | .exited => false

/-- Whether the user counts as active: it is not told to retire, or its thread has not counted it
down yet. -/
def isActive (p : Standing) : Bool := !p.retired || p.exit == .dropsActive

end Standing

namespace Crew

/-- How many users count as running because of what the controller is in the middle of. -/
def Task.running : Task → Nat
  | .raisesPeak _ _ | .addsSpawned _ | .launches _ | .dropsNewActive | .dropsNewRunning => 1
  | _ => 0

/-- How many users count as active because of what the controller is in the middle of. -/
def Task.active : Task → Nat
  | .addsRunning _ | .raisesPeak _ _ | .addsSpawned _ | .launches _ | .dropsNewActive
  | .dropsActive => 1
  | _ => 0

/-- The counters of a crew are right. -/
structure Balanced (c : Crew) : Prop where
  running : c.gauge.running = c.standings.countP Standing.isRunning + c.task.running
  active : c.gauge.active = c.standings.countP Standing.isActive + c.task.active

variable {c c' : Crew}

/-- What a crew is in the middle of keeps the balance: each counter goes up or down with what it is
about. -/
theorem Balanced.work {o : Outcome} (h : c.Balanced) (hw : c.Works c' o) : c'.Balanced := by
  obtain ⟨hr, ha⟩ := h
  -- Each step changes a count by what its task is still expected to bring in.
  cases hw with
  | idle => exact ⟨hr, ha⟩
  | launches u ht =>
    rw [ht] at hr ha
    constructor
    · rw [standings_launch, List.countP_append]
      exact hr
    · rw [standings_launch, List.countP_append]
      exact ha
  | parts roll _ _ ht =>
    rw [ht] at hr ha
    cases roll <;> exact ⟨hr, ha⟩
  | joins _ _ _ _ ht hj =>
    obtain ⟨_, _, rfl⟩ := Option.map_eq_some_iff.1 hj
    rw [ht] at hr ha
    exact ⟨hr, ha⟩
  | raisesPeak _ _ ht | addsSpawned _ ht | seesGone _ _ _ _ _ ht | seesLeft _ _ _ _ _ ht
  | breaks _ _ _ ht | turns ht | ends ht =>
    rw [ht] at hr ha
    exact ⟨hr, ha⟩
  | addsActive _ ht =>
    rw [ht] at hr ha
    exact ⟨hr, congrArg (· + 1) ha⟩
  | addsRunning _ ht =>
    rw [ht] at hr ha
    exact ⟨congrArg (· + 1) hr, ha⟩
  | dropsNewActive ht | dropsActive ht =>
    rw [ht] at hr ha
    exact ⟨hr, congrArg (· - 1) ha⟩
  | dropsNewRunning ht =>
    rw [ht] at hr ha
    exact ⟨congrArg (· - 1) hr, ha⟩

theorem task_tell (c : Crew) (i : Nat) :
    (c.tell i).task = if c.isRetired i then .none else .dropsActive := rfl

/-- Who is told to retire counts as active no more, if this is the first time. -/
theorem countP_tell {i : Nat} {p : Standing} (hs : ∀ p ∈ c.standings, p.Sound)
    (hp : c.standings[i]? = some p) :
    (c.standings.modify i .tell).countP Standing.isRunning =
        c.standings.countP Standing.isRunning ∧
      (c.standings.modify i .tell).countP Standing.isActive + (!p.retired).toNat =
        c.standings.countP Standing.isActive := by
  have hrunning := countP_modify Standing.tell Standing.isRunning hp
  have hactive := countP_modify Standing.tell Standing.isActive hp
  have hsound := hs p (List.mem_of_getElem? hp)
  refine ⟨Nat.add_right_cancel hrunning, ?_⟩
  obtain ⟨retired, exit⟩ := p
  cases retired with
  | true => exact Nat.add_right_cancel hactive
  | false =>
    obtain rfl : exit = .staying := hsound.resolve_right Bool.noConfusion
    exact hactive

/-- Telling a user to retire leaves it to the next step to count it down, and only if this has not
been done. -/
theorem Balanced.tell (h : c.Balanced) (hidle : c.task = .none)
    (hs : ∀ p ∈ c.standings, p.Sound) {i : Nat} (hi : i < c.threads.length) :
    (c.tell i).Balanced := by
  obtain ⟨hr, ha⟩ := h
  rw [hidle] at hr ha
  rw [← length_standings] at hi
  obtain ⟨p, hp⟩ : ∃ p, c.standings[i]? = some p := ⟨_, List.getElem?_eq_getElem hi⟩
  obtain ⟨hcr, hca⟩ := countP_tell hs hp
  have hretired : c.isRetired i = p.retired := by rw [isRetired_eq, hp, Option.any_some]
  constructor
  · show c.gauge.running = (c.tell i).standings.countP _ + (c.tell i).task.running
    have htask : (c.tell i).task.running = 0 := by
      rw [task_tell]
      cases c.isRetired i <;> rfl
    rw [standings_tell, htask, hr, hcr]
    rfl
  · show c.gauge.active = (c.tell i).standings.countP _ + (c.tell i).task.active
    rw [standings_tell, task_tell, hretired, ha, ← hca]
    cases p.retired <;> rfl

/-- A thread that leaves takes its user out of the counts as it goes. -/
theorem count_leave (p : Standing) (g : Gauge) :
    (p.exit.count g).running = g.running - (p.isRunning.toNat - p.leave.isRunning.toNat) ∧
      p.leave.isRunning.toNat ≤ p.isRunning.toNat := by
  obtain ⟨retired, exit⟩ := p
  cases exit <;> cases retired <;> exact ⟨rfl, by decide⟩

/-- A thread that counts itself out was counted. -/
theorem count_leave_active {p : Standing} (hs : p.Sound) (g : Gauge) :
    (p.exit.count g).active = g.active - (p.isActive.toNat - p.leave.isActive.toNat) ∧
      p.leave.isActive.toNat ≤ p.isActive.toNat := by
  obtain ⟨retired, exit⟩ := p
  cases retired with
  | true => cases exit <;> exact ⟨rfl, by decide⟩
  | false =>
    obtain rfl : exit = .staying := hs.resolve_right Bool.noConfusion
    exact ⟨rfl, by decide⟩

/-- The counters follow a thread that leaves, if they are not too low. -/
theorem countP_leave (hs : ∀ p ∈ c.standings, p.Sound)
    (hr : c.standings.countP Standing.isRunning ≤ c.gauge.running)
    (ha : c.standings.countP Standing.isActive ≤ c.gauge.active) (i : Nat) :
    (c.leave i).gauge.running + c.standings.countP Standing.isRunning =
        c.gauge.running + (c.leave i).standings.countP Standing.isRunning ∧
      (c.leave i).gauge.active + c.standings.countP Standing.isActive =
        c.gauge.active + (c.leave i).standings.countP Standing.isActive := by
  rcases c.leave_cases i with ⟨-, hl⟩ | ⟨t, ht, hl⟩
  · rw [hl]
    exact ⟨rfl, rfl⟩
  · have hp : c.standings[i]? = some t.standing := by
      rw [standings, List.getElem?_map, ht, Option.map_some]
    have hcr := countP_modify Standing.leave Standing.isRunning hp
    have hca := countP_modify Standing.leave Standing.isActive hp
    have hgauge : (c.leave i).gauge = t.standing.exit.count c.gauge := by rw [hl]; rfl
    obtain ⟨hrunning, hrle⟩ := count_leave t.standing c.gauge
    obtain ⟨hactive, hale⟩ := count_leave_active (hs _ (List.mem_of_getElem? hp)) c.gauge
    rw [standings_leave, hgauge]
    constructor <;> omega

/-- A thread on its way out keeps the balance. -/
theorem Balanced.leave (h : c.Balanced) (hs : ∀ p ∈ c.standings, p.Sound) (i : Nat) :
    (c.leave i).Balanced := by
  obtain ⟨hr, ha⟩ := h
  obtain ⟨hrunning, hactive⟩ := countP_leave hs (hr ▸ Nat.le_add_right _ _)
    (ha ▸ Nat.le_add_right _ _) i
  constructor
  · rw [(c.task_leave i).1]
    omega
  · rw [(c.task_leave i).1]
    omega

/-- Only the counters, the standings and what the controller is in the middle of matter. -/
theorem Balanced.congr (h : c.Balanced) (hgauge : c'.gauge = c.gauge)
    (hs : c'.standings = c.standings) (hr : c'.task.running = c.task.running)
    (ha : c'.task.active = c.task.active) : c'.Balanced :=
  ⟨by rw [hgauge, hs, hr, h.running], by rw [hgauge, hs, ha, h.active]⟩

/-- Retiring the newest user keeps the balance, as the crew goes on to count it down. -/
theorem Balanced.retireNewest (h : c.Balanced) (hidle : c.task = .none)
    (hs : ∀ p ∈ c.standings, p.Sound) (hlive : ∀ i ∈ c.live, i < c.threads.length) :
    c.retireNewest.Balanced := by
  rcases c.retireNewest_cases with hr | ⟨front, i, hfront, hr⟩ <;> rw [hr]
  · exact h
  · have hmoved : ({ c with live := front, draining := c.draining ++ [i] } : Crew).Balanced :=
      h.congr rfl rfl rfl rfl
    have hi : i ∈ c.live := by
      rw [hfront]
      exact List.mem_concat_self
    exact hmoved.tell hidle hs (hlive i hi)

end Crew

namespace Controller

variable {w : Waiting} {now : Span} {c c' : Controller} {e : Effect}

/-- Each row of the table keeps the balance. -/
theorem balanced_acts (h : c.crew.Balanced) (hidle : c.crew.task = .none)
    (hs : ∀ p ∈ c.crew.standings, p.Sound) (hrests : c.Rests)
    (hheld : ∀ i ∈ c.crew.live ++ c.crew.draining, i < c.crew.threads.length)
    (ha : c.Acts w now c' e) : c'.crew.Balanced := by
  cases ha with
  | retires => exact h.retireNewest hidle hs fun i hi => hheld i (List.mem_append_left _ hi)
  | tells i rest hphase =>
    rw [Rests, hphase] at hrests
    exact h.tell hidle hs (hheld i (hrests.2 i (List.mem_cons_self ..)))
  | joins _ _ _ _ _ _ hj =>
    obtain ⟨_, _, rfl⟩ := Option.map_eq_some_iff.1 hj
    exact h.congr rfl rfl rfl rfl
  | joinedAll last => cases last <;> exact h
  | breaks _ _ last => cases last <;> exact h
  | recruits | spawns | finishesReaping | aims | looks =>
    exact h.congr rfl rfl (by rw [hidle]; rfl) (by rw [hidle]; rfl)
  | recruitedFixed | told => exact h.congr rfl rfl rfl rfl
  | _ => exact h

/-- So does every step of a controller. -/
theorem balanced_steps (h : c.crew.Balanced) (hs : ∀ p ∈ c.crew.standings, p.Sound)
    (hrests : c.Rests) (hheld : ∀ i ∈ c.held, i < c.crew.threads.length)
    (hst : c.Steps w now c' e) : c'.crew.Balanced := by
  cases hst with
  | acts hidle ha =>
    refine balanced_acts h hidle hs hrests (fun i hi => hheld i ?_) ha
    rw [held, Crew.held_of_idle hidle]
    exact List.mem_append_right _ hi
  | works _ hw | started _ hw | joined _ _ hw | broken _ _ _ hw | refused _ hw => exact h.work hw

end Controller

namespace Scene

variable {w : Waiting} {s : Scene}

/-- Whoever is held was started. -/
theorem Ledger.held_lt (h : s.Ledger) : ∀ i ∈ s.controller.held, i < s.crew.threads.length := by
  intro i hi
  have hcount := h.accounted i
  have hpos := List.count_pos_iff.2 hi
  exact List.mem_range.1 (List.count_pos_iff.1 (by omega))

/-- Whatever happens keeps the counters right. -/
theorem balanced_next (h : s.crew.Balanced) (hs : ∀ p ∈ s.crew.standings, p.Sound)
    (hrests : s.controller.Rests) (hheld : ∀ i ∈ s.controller.held, i < s.crew.threads.length)
    (choice : Choice) : (s.next w choice).crew.Balanced := by
  cases s.next_turn w choice with
  | controller now hc =>
    rw [hc]
    exact Controller.balanced_steps h hs hrests hheld (s.controller.steps w now s.aborted)
  | refuse hr =>
    rw [hr, crew_modifyCrew]
    rcases s.crew.refuse_cases with hr' | ⟨u, ht, hr'⟩ <;> rw [hr']
    · exact h
    · exact h.congr rfl rfl (by rw [ht]; rfl) (by rw [ht]; rfl)
  | leave i _ hl =>
    rw [hl, crew_modifyCrew]
    exact h.leave hs i
  | users hu => exact h.congr hu.gauge hu.standings (by rw [hu.task]) (by rw [hu.task])

/-- In every run, the counters are right at every moment. -/
theorem balanced_run (w : Waiting) (gens : Nat → Random.Generator) (post : Post)
    (choices : List Choice) :
    ((Scene.start w gens post).run w choices).crew.Balanced := by
  have h := run_induction w (s := Scene.start w gens post)
    (p := fun s => s.crew.Balanced ∧ (∀ p ∈ s.crew.standings, p.Sound) ∧ s.Ledger)
    ⟨⟨rfl, rfl⟩, fun _ hp => (by cases hp), ledger_start w gens post⟩
    (fun s choice ⟨hb, hs, hl⟩ => ⟨balanced_next hb hs hl.rests hl.held_lt choice,
      sound_next w hs choice, hl.next choice⟩) choices
  exact h.1

end Scene

end LoadReplay
