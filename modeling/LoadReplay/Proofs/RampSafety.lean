import LoadReplay.Proofs.RampCrew

/-!
# Ramps are never overshot

The controller of a ramp computes a target now and then, and brings its crew there.  Users that are
told to retire go on for a while, and they count as running.  Still, whatever the clock shows and
however long they stay, a user is only counted as running while fewer users than the target are, so
that the greatest target is never exceeded (`Scene.ramp_safe`).

## Shape of the proof

`Ramps` is a table of what holds in each phase of the controller.  What carries the count of running
users is the row of the phase in which users are started: from the look at the counter on, only the
controller raises it.  What carries the count of active users is that all users that are not told to
retire are in the pool of live users.
-/

namespace LoadReplay

/-! ## Targets -/

/-- The greatest of some numbers. -/
def greatest (l : List Nat) : Nat := l.foldr max 0

/-- The greatest number is no less than any other. -/
theorem le_greatest {l : List Nat} {n : Nat} (h : n ∈ l) : n ≤ greatest l := by
  induction l with
  | nil => simp at h
  | cons m rest ih =>
    show n ≤ max m (greatest rest)
    rcases List.mem_cons.1 h with rfl | h
    · exact Nat.le_max_left _ _
    · exact Nat.le_trans (ih h) (Nat.le_max_right _ _)

/-- It is no more than what all of them are bounded by. -/
theorem greatest_le {l : List Nat} {n : Nat} (h : ∀ m ∈ l, m ≤ n) : greatest l ≤ n := by
  induction l with
  | nil => exact Nat.zero_le n
  | cons m rest ih =>
    exact Nat.max_le.2 ⟨h m (List.mem_cons_self ..),
      ih fun k hk => h k (List.mem_cons_of_mem _ hk)⟩

/-- More numbers have no less a greatest one. -/
theorem greatest_mono {l l' : List Nat} (h : ∀ n ∈ l, n ∈ l') : greatest l ≤ greatest l' :=
  greatest_le fun n hn => le_greatest (h n hn)

namespace Ramp

/-- The most users that a ramp asks for at its start or at the end of a stage. -/
def highest (start : Nat) (stages : List Stage) : Nat := greatest (start :: stages.map (·.target))

/-- Within a stage the target lies between its two ends. -/
theorem stageTarget_le (α : Type) [Number.Scalar α] (shape : RampShape) (previous : Nat)
    (stage : Stage) (elapsed : Span) :
    stageTarget α shape previous stage elapsed ≤ max previous stage.target := by
  cases shape with
  | step => exact Nat.le_max_right _ _
  | linear => exact Nat.min_le_right _ _

/-- So no target is above all ends of the stages. -/
theorem pointFrom_target_le {α : Type} [Number.Scalar α] {shape : RampShape} {elapsed : Span}
    {stages : List Stage} {previous index : Nat} {stageStart : Span} {point : Point}
    (h : pointFrom α shape elapsed previous index stageStart stages = some point) :
    point.target ≤ highest previous stages := by
  induction stages generalizing previous index stageStart with
  | nil =>
    obtain rfl := Option.some.inj h
    exact le_greatest (List.mem_cons_self ..)
  | cons stage rest ih =>
    rw [pointFrom] at h
    split at h
    · simp at h
    · split at h
      · obtain rfl := Option.some.inj h
        refine Nat.le_trans (stageTarget_le α shape previous stage _) (Nat.max_le.2 ⟨?_, ?_⟩)
        · exact le_greatest (List.mem_cons_self ..)
        · exact le_greatest (by simp)
      · exact Nat.le_trans (ih h) (greatest_mono (by simp +contextual))

/-- A ramp never asks for more users than at its start or at the end of a stage. -/
theorem pointAt_target_le {α : Type} [Number.Scalar α] {start : Nat} {stages : List Stage}
    {shape : RampShape} {elapsed : Span} {point : Point}
    (h : pointAt α start stages shape elapsed = some point) :
    point.target ≤ highest start stages :=
  pointFrom_target_le h

end Ramp

/-! ## Controllers that follow a ramp -/

/-- The target that a step of the controller asks for. -/
def Controller.Effect.aim? : Controller.Effect → Option Nat
  | .aims target => some target
  | _ => none

/-- The target that a step asks for. -/
def Event.aim? : Event → Option Nat
  | .controller _ effect => effect.aim?
  | .user _ _ _ => none

/-- The targets that were computed so far, the latest one last. -/
def Scene.aims (s : Scene) : List Nat := s.log.filterMap Event.aim?

namespace Controller

variable (start : Nat) (stages : List Stage) (shape : RampShape)

/-- Whether a control loop goes along a ramp. -/
def Loop.Follows (loop : Loop) : Prop :=
  ∃ began length, loop = .along start stages shape began length

/-- What holds in each phase of a controller that follows a ramp and has computed some targets. -/
def Ramps (aims : List Nat) (c : Controller) : Prop :=
  match c.phase with
  | .delaying _ | .starting | .entering => c.crew.task = .none ∧ c.crew.standings = []
  | .deciding loop => loop.Follows start stages shape ∧ c.crew.task = .none ∧ c.crew.Covered
  | .scaling target _ loop =>
    loop.Follows start stages shape ∧ aims.getLast? = some target ∧ c.crew.ScalesTo target ∧
      c.crew.Covered
  | .ticking _ loop =>
    loop.Follows start stages shape ∧ c.crew.task = .none ∧ c.crew.Covered ∧
      ∃ target, aims.getLast? = some target ∧ c.crew.live.length ≤ target
  | .recruiting _ | .joining _ false => False
  | .ended report => ¬c.crew.IsStarting ∧ report.peakVus ≤ greatest aims
  | .closing | .telling _ | .joining _ true | .reporting | .failed | .crashed =>
    ¬c.crew.IsStarting

/-- What holds all the time of a controller that follows a ramp and has computed some targets. -/
structure RampInv (aims : List Nat) (c : Controller) : Prop where
  computed : ∀ target ∈ aims, ∃ elapsed point,
    Ramp.pointAt Float start stages shape elapsed = some point ∧ point.target = target
  running : c.crew.gauge.running ≤ greatest aims
  peak : c.crew.gauge.peak ≤ greatest aims
  ramps : c.Ramps start stages shape aims

variable {start stages shape} {w : Waiting} {now : Span} {c c' : Controller} {e : Effect}
  {aims : List Nat}

/-- The target that a loop along a ramp asks for is computed from the ramp. -/
theorem Loop.Follows.computed {loop : Loop} (hf : loop.Follows start stages shape)
    {interval : Span} {target : Nat} {pause : Span}
    (h : loop.decide interval now = .goOn (some target) pause) :
    ∃ elapsed point,
      Ramp.pointAt Float start stages shape elapsed = some point ∧ point.target = target := by
  obtain ⟨began, length, rfl⟩ := hf
  rw [Loop.decide] at h
  split at h
  · cases h
  · rename_i point hpoint
    split at h
    · cases h
    · simp only [Decision.goOn.injEq, Option.some.injEq] at h
      exact ⟨_, point, hpoint, h.1⟩

/-- A step that computes a target goes on to bring the crew there. -/
theorem Ramps.acts_aims {target : Nat} (h : c.Ramps start stages shape aims)
    (hidle : c.crew.task = .none) (ha : c.Acts w now c' (.aims target)) :
    c'.Ramps start stages shape (aims ++ [target]) ∧ ∃ elapsed point,
      Ramp.pointAt Float start stages shape elapsed = some point ∧ point.target = target := by
  rw [Ramps] at h
  cases ha with
  | delays _ _ _ _ he | ticks _ _ _ _ _ he => rcases he with he | ⟨_, he⟩ <;> cases he
  | aims loop _ pause hphase hd =>
    rw [hphase] at h
    exact ⟨⟨h.1, List.getLast?_concat, trivial, h.2.2.reap hidle⟩, h.1.computed hd⟩

/-- Any other step of a controller whose crew is idle goes from row to row of the table. -/
theorem Ramps.acts (hx : c.post.scenario.executor = .rampingConcurrency start stages shape)
    (h : c.Ramps start stages shape aims) (hpeak : c.crew.gauge.peak ≤ greatest aims)
    (hidle : c.crew.task = .none) (ha : c.Acts w now c' e) (he : e.aim? = none) :
    c'.Ramps start stages shape aims := by
  have hstill := Crew.not_isStarting_of_idle hidle
  have hrow := h
  rw [Ramps] at hrow
  cases ha with
  | rests | awaits => exact h
  | delays _ _ _ hphase | delayed _ hphase | startsRamp _ _ _ hphase | ticks _ _ _ _ hphase =>
    rw [hphase] at hrow
    exact hrow
  | overflows | finishes | cuts | closes | finishesReaping | told => first | exact hstill | exact id
  | skips => exact ⟨hstill, Nat.zero_le _⟩
  | tells i => exact Crew.not_isStarting_tell _ i
  | reports => exact ⟨hstill, hpeak⟩
  | startsNone _ _ hx' | startsFixed _ _ _ hx' | startsConstant _ _ _ hx' =>
    rw [hx] at hx'
    cases hx'
  | recruits _ hphase | recruitedFixed _ _ hphase | recruited hphase =>
    rw [hphase] at hrow
    exact hrow.elim
  | enters loop hphase hl =>
    rw [hphase] at hrow
    rw [loop?, hx] at hl
    obtain ⟨length, _, rfl⟩ := Option.map_eq_some_iff.1 hl
    exact ⟨⟨_, _, rfl⟩, hrow.1, fun i ⟨p, hp, _⟩ => by simp [hrow.2] at hp⟩
  | aims => cases he
  | looks loop pause hphase hd =>
    -- A loop along a ramp always has a target.
    rw [hphase] at hrow
    obtain ⟨began, length, rfl⟩ := hrow.1
    rw [Loop.decide] at hd
    split at hd
    · cases hd
    · split at hd <;> simp at hd
  | retires target pause loop hphase =>
    rw [hphase] at hrow
    rw [Ramps]
    simp only [hphase]
    exact ⟨hrow.1, hrow.2.1, Crew.scalesTo_retireNewest target hidle,
      hrow.2.2.2.retireNewest hidle⟩
  | spawns target pause loop hphase _ hr =>
    rw [hphase] at hrow
    rw [Ramps, enrol]
    simp only [hphase]
    exact ⟨hrow.1, hrow.2.1, hr, hrow.2.2.2.congr rfl (by rw [Crew.pool, Crew.pool, hidle]; rfl)⟩
  | settles target pause loop hphase hl =>
    rw [hphase] at hrow
    exact ⟨hrow.1, hidle, hrow.2.2.2, target, hrow.2.1, hl⟩
  | ticked p loop hphase =>
    rw [hphase] at hrow
    exact ⟨hrow.1, hrow.2.1, hrow.2.2.1⟩
  | joinedAll last hphase =>
    rw [hphase] at hrow
    cases last with
    | false => exact hrow.elim
    | true =>
      rw [joined]
      cases c.broken <;> exact hstill
  | breaks i rest last hphase =>
    rw [hphase] at hrow
    cases last with
    | false => exact hrow.elim
    | true => exact hstill
  | joins i rest last crew hphase _ hj =>
    rw [hphase] at hrow
    cases last with
    | false => exact hrow.elim
    | true =>
      obtain ⟨_, _, rfl⟩ := Option.map_eq_some_iff.1 hj
      exact hstill

/-- What happens to the crew alone stays in the row of the phase. -/
theorem Ramps.of_crew {crew : Crew} {budget : Option Budget} (h : c.Ramps start stages shape aims)
    (hidle : c.crew.task = .none → crew.task = .none ∧ crew.live = c.crew.live ∧
      (c.crew.standings = [] → crew.standings = []))
    (hscales : ∀ target, c.crew.ScalesTo target → crew.ScalesTo target)
    (hcovered : c.crew.Covered → crew.Covered)
    (hstill : ¬c.crew.IsStarting → ¬crew.IsStarting) :
    ({ c with crew, budget } : Controller).Ramps start stages shape aims := by
  rw [Ramps] at h ⊢
  -- Each phase asks only for what the four hypotheses keep.
  match hphase : c.phase with
  | .delaying _ | .starting | .entering =>
    rw [hphase] at h
    exact ⟨(hidle h.1).1, (hidle h.1).2.2 h.2⟩
  | .deciding _ =>
    rw [hphase] at h
    exact ⟨h.1, (hidle h.2.1).1, hcovered h.2.2⟩
  | .scaling target _ loop =>
    rw [hphase] at h
    exact ⟨h.1, h.2.1, hscales target h.2.2.1, hcovered h.2.2.2⟩
  | .ticking _ _ =>
    rw [hphase] at h
    refine ⟨h.1, (hidle h.2.1).1, hcovered h.2.2.1, ?_⟩
    show ∃ target, aims.getLast? = some target ∧ crew.live.length ≤ target
    rw [(hidle h.2.1).2.1]
    exact h.2.2.2
  | .recruiting _ | .joining _ false =>
    rw [hphase] at h
    exact h.elim
  | .ended report =>
    rw [hphase] at h
    exact ⟨hstill h.1, h.2⟩
  | .closing | .telling _ | .joining _ true | .reporting | .failed | .crashed =>
    rw [hphase] at h
    exact hstill h

/-- A step of what the crew is in the middle of stays in its row. -/
theorem Ramps.works {crew : Crew} {o : Crew.Outcome} (h : c.Ramps start stages shape aims)
    (hs : ∀ p ∈ c.crew.standings, p.Sound) (hbusy : c.crew.task ≠ .none)
    (hw : c.crew.Works crew o) : ({ c with crew } : Controller).Ramps start stages shape aims :=
  h.of_crew (fun hidle => absurd hidle hbusy) (fun _ hsc => (hsc.work hw).1)
    (fun hcov => hcov.work hs hw) fun hn => (Crew.work_of_not_isStarting hn hw).1

/-- What the counters can reach in a step of what the crew is in the middle of. -/
theorem RampInv.counts {crew : Crew} {o : Crew.Outcome} (h : c.RampInv start stages shape aims)
    (hbusy : c.crew.task ≠ .none) (hw : c.crew.Works crew o) :
    crew.gauge.running ≤ greatest aims ∧ crew.gauge.peak ≤ greatest aims := by
  have hrow := h.ramps
  rw [Ramps] at hrow
  -- Where nobody is being started, the counts of running users can only fall.
  have hcalm : ¬c.crew.IsStarting →
      crew.gauge.running ≤ greatest aims ∧ crew.gauge.peak ≤ greatest aims := fun hn =>
    have hle := (Crew.work_of_not_isStarting hn hw).2
    ⟨Nat.le_trans hle.1 h.running, Nat.le_trans hle.2 h.peak⟩
  match hphase : c.phase with
  | .delaying _ | .starting | .entering =>
    rw [hphase] at hrow
    exact absurd hrow.1 hbusy
  | .deciding _ | .ticking _ _ =>
    rw [hphase] at hrow
    exact absurd hrow.2.1 hbusy
  | .scaling target _ loop =>
    rw [hphase] at hrow
    have htarget : target ≤ greatest aims := le_greatest (List.mem_of_getLast? hrow.2.1)
    have hle := (hrow.2.2.1.work hw).2
    exact ⟨Nat.le_trans hle.1 (Nat.max_le.2 ⟨h.running, htarget⟩),
      Nat.le_trans hle.2 (Nat.max_le.2 ⟨h.peak, htarget⟩)⟩
  | .recruiting _ | .joining _ false =>
    rw [hphase] at hrow
    exact hrow.elim
  | .ended report =>
    rw [hphase] at hrow
    exact hcalm hrow.1
  | .closing | .telling _ | .joining _ true | .reporting | .failed | .crashed =>
    rw [hphase] at hrow
    exact hcalm hrow

/-- The running count only goes up when a new user is counted in. -/
theorem Steps.of_running_lt (h : c.Steps w now c' e)
    (hlt : c.crew.gauge.running < c'.crew.gauge.running) : ∃ u, c.crew.task = .addsRunning u := by
  cases h with
  | acts _ ha =>
    rw [ha.gauge] at hlt
    exact absurd hlt (Nat.lt_irrefl _)
  | works _ hw | started _ hw | joined _ _ hw | broken _ _ _ hw | refused _ hw =>
    exact hw.of_running_lt hlt

/-- Somebody is started only when a thread is launched. -/
theorem Steps.of_length_lt (h : c.Steps w now c' e)
    (hlt : c.crew.standings.length < c'.crew.standings.length) :
    ∃ u, c.crew.task = .launches u := by
  cases h with
  | acts _ ha =>
    rw [Crew.length_standings, Crew.length_standings, ha.threads_length] at hlt
    exact absurd hlt (Nat.lt_irrefl _)
  | works _ hw | started _ hw | joined _ _ hw | broken _ _ _ hw | refused _ hw =>
    exact hw.of_length_lt hlt

/-- Every step of the controller keeps the invariant. -/
theorem RampInv.steps (hx : c.post.scenario.executor = .rampingConcurrency start stages shape)
    (hs : ∀ p ∈ c.crew.standings, p.Sound) (h : c.RampInv start stages shape aims)
    (hst : c.Steps w now c' e) : c'.RampInv start stages shape (aims ++ e.aim?.toList) := by
  cases hst with
  | acts hidle ha =>
    -- A new target may raise the greatest one; it never lowers it, so the bounds stay.
    match he : e.aim? with
    | none =>
      rw [Option.toList_none, List.append_nil]
      refine ⟨h.computed, ?_, ?_, h.ramps.acts hx h.peak hidle ha he⟩
      · rw [ha.gauge]
        exact h.running
      · rw [ha.gauge]
        exact h.peak
    | some target =>
      obtain rfl : e = .aims target := by
        cases e <;> simp_all [Effect.aim?]
      obtain ⟨hramps, hcomputed⟩ := h.ramps.acts_aims hidle ha
      have hmono : greatest aims ≤ greatest (aims ++ [target]) :=
        greatest_mono (by simp +contextual)
      refine ⟨fun t ht => ?_, ?_, ?_, hramps⟩
      · rcases List.mem_append.1 ht with ht | ht
        · exact h.computed t ht
        · rw [List.mem_singleton.1 ht]
          exact hcomputed
      · rw [ha.gauge]
        exact Nat.le_trans h.running hmono
      · rw [ha.gauge]
        exact Nat.le_trans h.peak hmono
  | works hbusy hw | started hbusy hw | joined _ hbusy hw =>
    obtain ⟨hrunning, hpeak⟩ := h.counts hbusy hw
    have hramps := h.ramps.works hs hbusy hw
    simp only [Effect.aim?, Option.toList_none, List.append_nil]
    exact ⟨h.computed, hrunning, hpeak, hramps⟩
  | broken i rest hbusy hw =>
    obtain ⟨hrunning, hpeak⟩ := h.counts hbusy hw
    simp only [Effect.aim?, Option.toList_none, List.append_nil]
    refine ⟨h.computed, hrunning, hpeak, ?_⟩
    cases hw with
    | breaks => exact id
  | refused hbusy hw =>
    obtain ⟨hrunning, hpeak⟩ := h.counts hbusy hw
    simp only [Effect.aim?, Option.toList_none, List.append_nil]
    refine ⟨h.computed, hrunning, hpeak, ?_⟩
    cases hw with
    | dropsNewRunning => exact id

end Controller

/-! ## Runs -/

namespace Scene

variable {start : Nat} {stages : List Stage} {shape : RampShape} {s s' : Scene}

/-- The invariant of a scene whose controller follows a ramp. -/
structure Ramps (start : Nat) (stages : List Stage) (shape : RampShape) (s : Scene) : Prop where
  executor : s.controller.post.scenario.executor = .rampingConcurrency start stages shape
  sound : ∀ p ∈ s.crew.standings, p.Sound
  inv : s.controller.RampInv start stages shape s.aims

/-- Users do not aim at anything. -/
theorem aims_of_usersMoved (h : s.UsersMoved s') : s'.aims = s.aims := by
  rcases h.log with hlog | ⟨i, now, effect, hlog⟩
  · rw [aims, aims, hlog]
  · rw [aims, aims, hlog, List.filterMap_append]
    exact List.append_nil _

/-- The ramp is safe when a thread goes on its way out. -/
theorem Ramps.leave (h : s.Ramps start stages shape) (i : Nat) :
    (s.modifyCrew (·.leave i)).controller.RampInv start stages shape s.aims := by
  obtain ⟨hrunning, hpeak⟩ := s.crew.gauge_leave_le i
  obtain ⟨htask, hlive, _⟩ := s.crew.task_leave i
  refine ⟨h.inv.computed, Nat.le_trans hrunning h.inv.running, ?_, ?_⟩
  · exact Nat.le_trans (Nat.le_of_eq hpeak) h.inv.peak
  · refine h.inv.ramps.of_crew (fun hidle => ⟨htask.trans hidle, hlive, fun hnil => ?_⟩)
      (fun _ hsc => hsc.leave i) (fun hcov => hcov.leave i) (fun hn => ?_)
    · rw [Crew.standings_leave]
      exact (congrArg (List.modify · i Standing.leave) hnil).trans (List.modify_nil _ _)
    · rw [Crew.IsStarting] at hn ⊢
      rwa [htask]

/-- It is safe when a thread cannot be started. -/
theorem Ramps.refuse (h : s.Ramps start stages shape) :
    (s.modifyCrew (·.refuse)).controller.RampInv start stages shape s.aims := by
  rcases s.crew.refuse_cases with hr | ⟨u, ht, hr⟩
  · rw [modifyCrew, hr]
    exact h.inv
  · rw [modifyCrew, hr]
    refine ⟨h.inv.computed, h.inv.running, h.inv.peak, h.inv.ramps.of_crew ?_ ?_ ?_ ?_⟩
    · intro hidle
      cases ht.symm.trans hidle
    · exact fun _ _ => trivial
    · have hpool : s.controller.crew.pool = s.crew.live := by
        rw [Crew.pool, show s.controller.crew.task = _ from ht]
        rfl
      exact fun hcov => hcov.congr rfl hpool.symm
    · exact fun _ => id

/-- It is safe whatever users do. -/
theorem Ramps.users (h : s.Ramps start stages shape) (hu : s.UsersMoved s') :
    s'.controller.RampInv start stages shape s.aims := by
  rw [hu.controller]
  refine ⟨h.inv.computed, ?_, ?_, h.inv.ramps.of_crew ?_ ?_ ?_ ?_⟩
  · show s'.crew.gauge.running ≤ _
    rw [hu.gauge]
    exact h.inv.running
  · show s'.crew.gauge.peak ≤ _
    rw [hu.gauge]
    exact h.inv.peak
  · exact fun hidle => ⟨hu.task.trans hidle, hu.live, hu.standings.trans⟩
  · intro target hsc
    rw [Crew.ScalesTo, hu.task, hu.gauge]
    exact hsc
  · exact fun hcov => hcov.congr hu.standings (by rw [Crew.pool, hu.task, hu.live]; rfl)
  · intro hn
    rw [Crew.IsStarting, hu.task]
    exact hn

/-- Whatever happens keeps the invariant. -/
theorem Ramps.next {w : Waiting} (h : s.Ramps start stages shape) (choice : Choice) :
    (s.next w choice).Ramps start stages shape := by
  refine ⟨by rw [next_post]; exact h.executor, sound_next w h.sound choice, ?_⟩
  cases s.next_turn w choice with
  | controller now hc =>
    rw [hc]
    have haims : (s.stepController w now).aims =
        s.aims ++ (s.controller.step w now s.aborted).2.aim?.toList := by
      rw [aims, aims, stepController, List.filterMap_append]
      congr 1
    rw [haims]
    exact h.inv.steps h.executor h.sound (s.controller.steps w now s.aborted)
  | refuse hr =>
    rw [hr]
    exact h.refuse
  | leave i _ hl =>
    rw [hl]
    exact h.leave i
  | users hu =>
    rw [aims_of_usersMoved hu]
    exact h.users hu

/-- At first nobody runs. -/
theorem ramps_start (w : Waiting) (gens : Nat → Random.Generator) {post : Post}
    (hx : post.scenario.executor = .rampingConcurrency start stages shape) :
    (Scene.start w gens post).Ramps start stages shape := by
  refine ⟨hx, by simp [Scene.start, Controller.new, crew, Crew.empty, Crew.standings], ?_⟩
  refine ⟨by simp [Scene.start, aims], Nat.zero_le _, Nat.zero_le _, ?_⟩
  show (Controller.new w gens post).Ramps start stages shape _
  rw [Controller.new, Controller.Ramps]
  by_cases hz : post.scenario.startTime.isZero
  · simp only [hz, if_true]
    exact ⟨rfl, rfl⟩
  · simp only [hz]
    exact ⟨rfl, rfl⟩

/-- **The ramp is safe in every run.** -/
theorem ramps_run (w : Waiting) (gens : Nat → Random.Generator) {post : Post}
    (hx : post.scenario.executor = .rampingConcurrency start stages shape)
    (choices : List Choice) : ((Scene.start w gens post).run w choices).Ramps start stages shape :=
  run_induction w (ramps_start w gens hx) (fun _ choice h => h.next choice) choices

/-- A user is only being started on the way to a target. -/
theorem Ramps.scaling (h : s.Ramps start stages shape) (hs : s.crew.IsStarting) :
    ∃ target pause loop, s.controller.phase = .scaling target pause loop ∧
      s.aims.getLast? = some target ∧ s.crew.ScalesTo target := by
  have hrow := h.inv.ramps
  rw [Controller.Ramps] at hrow
  match hphase : s.controller.phase with
  | .scaling target pause loop =>
    rw [hphase] at hrow
    exact ⟨target, pause, loop, rfl, hrow.2.1, hrow.2.2.1⟩
  | .delaying _ | .starting | .entering =>
    rw [hphase] at hrow
    exact absurd hs (Crew.not_isStarting_of_idle hrow.1)
  | .deciding _ | .ticking _ _ =>
    rw [hphase] at hrow
    exact absurd hs (Crew.not_isStarting_of_idle hrow.2.1)
  | .recruiting _ | .joining _ false =>
    rw [hphase] at hrow
    exact hrow.elim
  | .ended _ =>
    rw [hphase] at hrow
    exact absurd hs hrow.1
  | .closing | .telling _ | .joining _ true | .reporting | .failed | .crashed =>
    rw [hphase] at hrow
    exact absurd hs hrow

/-- The count of running users is only raised while fewer users than the target are running. -/
theorem Ramps.running_lt {w : Waiting} (h : s.Ramps start stages shape) {choice : Choice}
    (hlt : s.crew.gauge.running < (s.next w choice).crew.gauge.running) :
    ∃ target pause loop, s.controller.phase = .scaling target pause loop ∧
      s.aims.getLast? = some target ∧ s.crew.gauge.running < target := by
  obtain ⟨u, ht⟩ : ∃ u, s.crew.task = .addsRunning u := by
    cases s.next_turn w choice with
    | controller now hc =>
      rw [hc] at hlt
      exact (s.controller.steps w now s.aborted).of_running_lt hlt
    | refuse hr =>
      rw [hr] at hlt
      rcases s.crew.refuse_cases with hr' | ⟨u, _, hr'⟩ <;> rw [modifyCrew, hr'] at hlt <;>
        exact absurd hlt (Nat.lt_irrefl _)
    | leave i _ hl =>
      rw [hl] at hlt
      exact absurd hlt (Nat.not_lt.2 (s.crew.gauge_leave_le i).1)
    | users hu =>
      rw [hu.gauge] at hlt
      exact absurd hlt (Nat.lt_irrefl _)
  obtain ⟨target, pause, loop, hphase, haim, hsc⟩ :=
    h.scaling (by rw [Crew.IsStarting, ht]; trivial)
  rw [Crew.ScalesTo, ht] at hsc
  exact ⟨target, pause, loop, hphase, haim, hsc⟩

/-- A thread is only started while no more users than the target are running with it. -/
theorem Ramps.launch_le {w : Waiting} (h : s.Ramps start stages shape) {choice : Choice}
    (hlt : s.crew.threads.length < (s.next w choice).crew.threads.length) :
    ∃ target pause loop, s.controller.phase = .scaling target pause loop ∧
      s.aims.getLast? = some target ∧ s.crew.gauge.running ≤ target := by
  rw [← Crew.length_standings, ← Crew.length_standings] at hlt
  obtain ⟨u, ht⟩ : ∃ u, s.crew.task = .launches u := by
    cases s.next_turn w choice with
    | controller now hc =>
      rw [hc] at hlt
      exact (s.controller.steps w now s.aborted).of_length_lt hlt
    | refuse hr =>
      rw [hr, crew_modifyCrew, Crew.standings_refuse] at hlt
      exact absurd hlt (Nat.lt_irrefl _)
    | leave i _ hl =>
      rw [hl, crew_modifyCrew, Crew.standings_leave, List.length_modify] at hlt
      exact absurd hlt (Nat.lt_irrefl _)
    | users hu =>
      rw [hu.standings] at hlt
      exact absurd hlt (Nat.lt_irrefl _)
  obtain ⟨target, pause, loop, hphase, haim, hsc⟩ :=
    h.scaling (by rw [Crew.IsStarting, ht]; trivial)
  rw [Crew.ScalesTo, ht] at hsc
  exact ⟨target, pause, loop, hphase, haim, hsc⟩

/-- **A ramp is never overshot.**  Whatever the clock shows and however late users exit:

* every target comes from the ramp, so that it is at most the highest one;
* a user is counted as running, and gets its thread, only on the way to a target and while fewer
  other users than the target are running;
* no more users than the greatest target so far are running, and the peak is at most the highest
  target of the ramp;
* from when the crew is brought to a target until the next one is computed, no more users than the
  target are active. -/
theorem ramp_safe (w : Waiting) (gens : Nat → Random.Generator) (post : Post) (start : Nat)
    (stages : List Stage) (shape : RampShape)
    (hx : post.scenario.executor = .rampingConcurrency start stages shape)
    (choices : List Choice) :
    let s := (Scene.start w gens post).run w choices
    (∀ target ∈ s.aims, target ≤ Ramp.highest start stages ∧ ∃ elapsed point,
        Ramp.pointAt Float start stages shape elapsed = some point ∧ point.target = target) ∧
      (∀ choice, s.crew.gauge.running < (s.next w choice).crew.gauge.running →
        ∃ target pause loop, s.controller.phase = .scaling target pause loop ∧
          s.aims.getLast? = some target ∧ s.crew.gauge.running < target) ∧
      (∀ choice, s.crew.threads.length < (s.next w choice).crew.threads.length →
        ∃ target pause loop, s.controller.phase = .scaling target pause loop ∧
          s.aims.getLast? = some target ∧ s.crew.gauge.running ≤ target) ∧
      s.crew.gauge.running ≤ greatest s.aims ∧
      s.crew.gauge.peak ≤ Ramp.highest start stages ∧
      (∀ report, s.controller.phase = .ended report →
        report.peakVus ≤ Ramp.highest start stages) ∧
      ∀ pause loop, s.controller.phase = .ticking pause loop →
        ∃ target, s.aims.getLast? = some target ∧ s.crew.working ≤ target := by
  intro s
  have h : s.Ramps start stages shape := ramps_run w gens hx choices
  have hbound : ∀ target ∈ s.aims, target ≤ Ramp.highest start stages := by
    intro target ht
    obtain ⟨elapsed, point, hpoint, rfl⟩ := h.inv.computed target ht
    exact Ramp.pointAt_target_le hpoint
  have hgreatest : greatest s.aims ≤ Ramp.highest start stages := greatest_le hbound
  refine ⟨fun target ht => ⟨hbound target ht, h.inv.computed target ht⟩, fun _ => h.running_lt,
    fun _ => h.launch_le, h.inv.running, Nat.le_trans h.inv.peak hgreatest, ?_, ?_⟩
  · intro report hphase
    have hrow := h.inv.ramps
    rw [Controller.Ramps, hphase] at hrow
    exact Nat.le_trans hrow.2 hgreatest
  · intro pause loop hphase
    have hrow := h.inv.ramps
    rw [Controller.Ramps, hphase] at hrow
    obtain ⟨_, htask, hcovered, target, haim, hlive⟩ := hrow
    -- While the loop waits nobody is being looked at, so the pool is the list of live users.
    have hpool : s.crew.pool = s.crew.live := by
      rw [Crew.pool, show s.crew.task = _ from htask]
    have hworking := Crew.working_le hcovered
    rw [show s.controller.crew.pool = _ from hpool] at hworking
    exact ⟨target, haim, Nat.le_trans hworking hlive⟩

/-- Down from two users to none, and up again. -/
def tideStages : List Stage := [⟨.millis 2, 0⟩, ⟨.millis 2, 2⟩]

/-- A scenario that looks at its ramp every millisecond. -/
def tide : Post :=
  { scenario :=
      { Scenario.new "tide" (.rampingConcurrency 2 tideStages .linear) with
        controlInterval := .millis 1 }
    groups := [] }

/-- What has come of the scenario. -/
def tideScene (choices : List Choice) : Scene :=
  (Scene.start .whole (.seeded 0 "tide") tide).run .whole choices

/-- The two users are started and told to retire, one after the other.  On the way up, both are
still running, and nobody is started. -/
def rising : List Choice :=
  List.flatten
    [.replicate 21 (.controller .zero), .replicate 12 (.controller (.millis 1)),
      .replicate 12 (.controller (.millis 2)), .replicate 11 (.controller (.millis 3))]

/-- Both users leave, and at the next look another one is started. -/
def risen : List Choice :=
  rising ++ List.flatten
    [[.user 0 (.millis 3), .user 1 (.millis 3)], .replicate 4 (.leave 0), .replicate 4 (.leave 1),
      .replicate 17 (.controller (.millis 3))]

/-- Up to two users, down to none, and up again: while the two still run, nobody is started. -/
theorem ramp_safe_tide :
    (tideScene rising).aims = [2, 1, 0, 1] ∧ (tideScene rising).crew.gauge.running = 2 ∧
      (tideScene rising).crew.threads.length = 2 ∧
      (tideScene rising).crew.gauge.running ≤ greatest (tideScene rising).aims ∧
      (tideScene risen).aims = [2, 1, 0, 1, 1] ∧ (tideScene risen).crew.gauge.running = 1 ∧
      (tideScene risen).crew.threads.length = 3 ∧ (tideScene risen).crew.working ≤ 1 ∧
      (tideScene risen).crew.gauge.peak ≤ Ramp.highest 2 tideStages := by
  have hx : tide.scenario.executor = .rampingConcurrency 2 tideStages .linear := rfl
  obtain ⟨-, -, -, hrunning, -⟩ :=
    ramp_safe .whole (.seeded 0 "tide") tide 2 tideStages .linear hx rising
  obtain ⟨-, -, -, -, hpeak, -, hworking⟩ :=
    ramp_safe .whole (.seeded 0 "tide") tide 2 tideStages .linear hx risen
  rw [← tideScene] at hrunning hpeak hworking
  have haims : (tideScene risen).aims = [2, 1, 0, 1, 1] := by decide +kernel
  have hticking : ((tideScene risen).controller.phase matches .ticking ..) = true := by
    decide +kernel
  refine ⟨by decide +kernel, by decide +kernel, by decide +kernel, hrunning, haims,
    by decide +kernel, by decide +kernel, ?_, hpeak⟩
  cases hphase : (tideScene risen).controller.phase with
  | ticking pause loop =>
    obtain ⟨target, haim, hle⟩ := hworking pause loop hphase
    have hlast : (tideScene risen).aims.getLast? = some target := haim
    rw [haims] at hlast
    obtain rfl := Option.some.inj hlast
    exact hle
  | _ =>
    rw [hphase] at hticking
    cases hticking

end Scene

end LoadReplay
