import LoadReplay.Proofs.JoinedReports

/-!
# Each user is counted down once

A user that was started is counted as active until it is told to retire or its thread is about to
exit, and these two may happen at the same time.  Whoever is first takes it upon itself to count the
user down, and does so in a later step, when anything may have happened in between.  A user is owed
such a step from its start on (`Controller.owes`), and the step that pays is the only one that
lowers the counter for it.  So in every run the counter is lowered at most once for each user, and
it has been exactly if nothing is owed any more.

The runs may begin at any moment that a controller can be at (`Scene.Regular`), also if it then
turns to something else than it was about to do.

Main statement: `lowerings_add_owes`.
-/

namespace LoadReplay

/-- Whether fewer users count as active in the second gauge than in the first one. -/
def Gauge.isLowered (g g' : Gauge) : Bool := g'.active < g.active

/-- A gauge is lowered if its active count is. -/
theorem Gauge.isLowered_iff {g g' : Gauge} : g.isLowered g' = true ↔ g'.active < g.active :=
  decide_eq_true_iff

/-- A gauge is not lowered when nothing happens. -/
theorem Gauge.not_isLowered_self (g : Gauge) : g.isLowered g = false :=
  decide_eq_false (Nat.lt_irrefl _)

/-- A thread counts its user down with the step that takes it out of the active ones. -/
theorem Standing.isLowered_count {p : Standing} (hs : p.Sound) {g : Gauge}
    (hpos : p.isActive → 0 < g.active) :
    (g.isLowered (p.exit.count g)).toNat = p.isActive.toNat - p.leave.isActive.toNat := by
  obtain ⟨hcount, -⟩ := Crew.count_leave_active hs g
  cases hactive : p.isActive with
  | false =>
    rw [hactive, Bool.toNat_false, Nat.zero_sub, Nat.sub_zero] at hcount
    rw [Gauge.isLowered, hcount, decide_eq_false (Nat.lt_irrefl _), Bool.toNat_false, Nat.zero_sub]
  | true =>
    have := hpos hactive
    rw [hactive, Bool.toNat_true] at hcount
    rw [Gauge.isLowered, hcount]
    cases p.leave.isActive with
    | true => exact congrArg Bool.toNat (decide_eq_false (Nat.lt_irrefl _))
    | false => exact congrArg Bool.toNat (decide_eq_true (Nat.sub_lt this Nat.one_pos))

namespace Crew

variable {c c' : Crew} {o : Outcome}

/-- No step of what a crew is in the middle of leaves it in the middle of counting a user down. -/
theorem Works.task_ne (hw : c.Works c' o) : c'.task ≠ .dropsActive := by
  cases hw with
  | idle h => rw [h]; exact Task.noConfusion
  | _ => exact Task.noConfusion

/-- A crew that has told a user to retire counts it down with its next step. -/
theorem Works.isLowered (hb : c.Balanced) (h : c.task = .dropsActive) (hw : c.Works c' o) :
    c.gauge.isLowered c'.gauge = true := by
  rw [Gauge.isLowered_iff]
  have hactive := hb.active
  rw [h] at hactive
  have hpos : 0 < c.gauge.active := hactive ▸ Nat.succ_pos _
  cases hw with
  | dropsActive => exact Nat.sub_lt hpos Nat.one_pos
  | _ => simp_all

/-- Counting a user down moves nobody. -/
theorem Works.lists_of_dropsActive (h : c.task = .dropsActive) (hw : c.Works c' o) :
    c'.live = c.live ∧ c'.draining = c.draining := by
  cases hw with
  | dropsActive => exact ⟨rfl, rfl⟩
  | _ => simp_all

/-- What holds of a user that has just got its thread held of it before. -/
theorem elim_launch (c : Crew) (u : User) (i : Nat) {q : Standing → Bool} (hq : q .fresh = true) :
    (c.launch u).standings[i]?.elim true q = c.standings[i]?.elim true q := by
  rw [standings_launch, List.getElem?_append]
  split
  · rfl
  · rename_i hlt
    rw [List.getElem?_eq_none (Nat.le_of_not_lt hlt)]
    cases i - c.standings.length with
    | zero => exact hq
    | succ => rfl

/-- A new user is active. -/
theorem Works.isActive (hw : c.Works c' o) (i : Nat) :
    c'.standings[i]?.elim true Standing.isActive = c.standings[i]?.elim true Standing.isActive := by
  cases hw with
  | launches u => exact c.elim_launch u i rfl
  | parts roll => cases roll <;> rfl
  | joins _ _ _ _ _ hj =>
    obtain ⟨_, _, rfl⟩ := Option.map_eq_some_iff.1 hj
    rfl
  | _ => rfl

/-- A thread on its way out counts its user down where it is to. -/
theorem leave_isLowered (hb : c.Balanced) (hs : ∀ p ∈ c.standings, p.Sound) (j i : Nat) :
    (c.gauge.isLowered (c.leave j).gauge && j == i).toNat +
        ((c.leave j).standings[i]?.elim true Standing.isActive).toNat =
      (c.standings[i]?.elim true Standing.isActive).toNat := by
  rw [standings_leave]
  by_cases hji : j = i
  · subst hji
    rw [List.getElem?_modify_eq]
    rcases c.leave_cases j with ⟨hnone, hl⟩ | ⟨t, ht, hl⟩
    · have hp : c.standings[j]? = none := by rw [standings, List.getElem?_map, hnone]; rfl
      rw [hl, hp, Gauge.not_isLowered_self]
      rfl
    · have hp : c.standings[j]? = some t.standing := by
        rw [standings, List.getElem?_map, ht, Option.map_some]
      have hmem := List.mem_of_getElem? hp
      rw [hl, hp]
      show (c.gauge.isLowered (t.standing.exit.count c.gauge) && j == j).toNat +
        t.standing.leave.isActive.toNat = t.standing.isActive.toNat
      rw [beq_self_eq_true, Bool.and_true,
        Standing.isLowered_count (hs _ hmem) fun hactive => hb.active ▸ Nat.add_pos_left
          (List.countP_pos_iff.2 ⟨_, hmem, hactive⟩) _]
      exact Nat.sub_add_cancel (count_leave_active (hs _ hmem) c.gauge).2
  · rw [List.getElem?_modify_ne _ _ hji, beq_false_of_ne hji, Bool.and_false]
    exact Nat.zero_add _

end Crew

namespace Controller

/-- The users that are still to be told to retire are the last ones of those that a controller has.
-/
def TellsOn (c : Controller) : Prop :=
  ∀ users, c.phase = .telling users → users <:+ c.crew.live ++ c.crew.draining

/-- The user that the controller has told to retire and is about to count down. -/
def told (c : Controller) : Option Nat :=
  match c.crew.task, c.phase with
  | .dropsActive, .scaling _ _ _ => c.crew.draining.getLast?
  | .dropsActive, .telling rest => (c.crew.live ++ c.crew.draining).reverse[rest.length]?
  | _, _ => none

/-- How often a user is still to be counted down, by its own thread or by the controller. -/
def owes (c : Controller) (i : Nat) : Nat :=
  (c.crew.standings[i]?.elim true Standing.isActive).toNat + (c.told == some i).toNat

variable {w : Waiting} {now : Span} {c c' : Controller} {e : Effect}

/-- Nobody was just told to retire unless the crew is about to count somebody down. -/
theorem told_of_task (h : c.crew.task ≠ .dropsActive) : c.told = none := by
  rw [told]
  split
  · exact absurd ‹_› h
  · exact absurd ‹_› h
  · rfl

/-- While a controller scales, it counts down whom it has put among those to retire last. -/
theorem told_of_scaling {target : Nat} {pause : Span} {loop : Loop}
    (htask : c.crew.task = .dropsActive) (hphase : c.phase = .scaling target pause loop) :
    c.told = c.crew.draining.getLast? := by
  simp only [told, htask, hphase]

/-- While it tells all users to retire, it counts down the one in front of those that are left. -/
theorem told_of_telling {rest : List Nat} (htask : c.crew.task = .dropsActive)
    (hphase : c.phase = .telling rest) :
    c.told = (c.crew.live ++ c.crew.draining).reverse[rest.length]? := by
  simp only [told, htask, hphase]

/-- Whom a controller counts down depends on its phase and on its lists. -/
theorem told_congr (hphase : c'.phase = c.phase) (htask : c'.crew.task = c.crew.task)
    (hlive : c'.crew.live = c.crew.live) (hdraining : c'.crew.draining = c.crew.draining) :
    c'.told = c.told := by
  rw [told, told, hphase, htask, hlive, hdraining]

/-- Who still owes a decrement depends on the standings and on whom the controller counts down. -/
theorem owes_congr (hs : c'.crew.standings = c.crew.standings) (htold : c'.told = c.told)
    (i : Nat) :
    c'.owes i = c.owes i := by
  rw [owes, owes, hs, htold]

/-- Nothing changes if nobody is told to retire. -/
theorem owes_of_task (hs : c'.crew.threads = c.crew.threads) (h : c.crew.task ≠ .dropsActive)
    (h' : c'.crew.task ≠ .dropsActive) (i : Nat) : c'.owes i = c.owes i :=
  owes_congr (Crew.standings_congr hs) (by rw [told_of_task h, told_of_task h']) i

/-- Whoever tells a user to retire owes what its thread has owed. -/
theorem owes_tell {j : Nat} (hs : ∀ p ∈ c.crew.standings, p.Sound) (hidle : c.crew.task = .none)
    (hj : j < c.crew.threads.length) (hthreads : c'.crew.threads = (c.crew.tell j).threads)
    (htask : c'.crew.task = (c.crew.tell j).task)
    (htold : c'.crew.task = .dropsActive → c'.told = some j) (i : Nat) : c'.owes i = c.owes i := by
  have hbefore : c.told = none := told_of_task (by rw [hidle]; exact Crew.Task.noConfusion)
  rw [← Crew.length_standings] at hj
  obtain ⟨p, hp⟩ : ∃ p, c.crew.standings[j]? = some p := ⟨_, List.getElem?_eq_getElem hj⟩
  have hretired : c.crew.isRetired j = p.retired := by rw [Crew.isRetired_eq, hp, Option.any_some]
  have hstandings : c'.crew.standings = c.crew.standings.modify j Standing.tell :=
    (Crew.standings_congr hthreads).trans (c.crew.standings_tell j)
  rw [Crew.task_tell, hretired] at htask
  rw [owes, owes, hbefore, hstandings, List.getElem?_modify]
  obtain ⟨retired, exit⟩ := p
  cases retired with
  | true =>
    -- It has been told before, so there is nothing to do.
    have hafter : c'.told = none := told_of_task (by rw [htask]; exact Crew.Task.noConfusion)
    rw [hafter]
    by_cases hij : j = i
    · subst hij
      rw [hp]
      simp [Standing.tell]
    · simp [hij]
  | false =>
    have hafter : c'.told = some j := htold htask
    obtain rfl : exit = .staying := (hs _ (List.mem_of_getElem? hp)).resolve_right Bool.noConfusion
    rw [hafter]
    by_cases hij : j = i
    · subst hij
      rw [hp]
      simp [Standing.tell, Standing.isActive]
    · simp [hij]

/-- A controller whose crew is idle tells one of its users to retire, or nobody. -/
theorem Acts.tells_cases (htells : c.TellsOn) (hidle : c.crew.task = .none)
    (ha : c.Acts w now c' e) :
    (∃ j ∈ c.crew.live ++ c.crew.draining, c'.crew.threads = (c.crew.tell j).threads ∧
      c'.crew.task = (c.crew.tell j).task ∧
      (c'.crew.task = .dropsActive → c'.told = some j)) ∨
    c'.crew.threads = c.crew.threads ∧ c'.crew.task ≠ .dropsActive := by
  have hcalm : c.crew.task ≠ .dropsActive := by rw [hidle]; exact Crew.Task.noConfusion
  -- Three rules tell someone to retire or find nobody to tell; all others leave the flags as they
  -- are.
  cases ha with
  | retires target pause loop hphase =>
    rcases c.crew.retireNewest_cases with hr | ⟨front, j, hfront, hr⟩
    · rw [hr]
      exact .inr ⟨rfl, hcalm⟩
    · have hj : j ∈ c.crew.live := by rw [hfront]; exact List.mem_concat_self
      rw [hr]
      refine .inl ⟨j, List.mem_append_left _ hj, rfl, rfl, fun htask => ?_⟩
      rw [told_of_scaling htask hphase]
      exact List.getLast?_concat
  | tells j rest hphase =>
    obtain ⟨done, hdone⟩ := htells _ hphase
    refine .inl ⟨j, by rw [← hdone]; simp, rfl, rfl, fun htask => ?_⟩
    rw [told_of_telling htask rfl]
    show (c.crew.live ++ c.crew.draining).reverse[rest.length]? = some j
    rw [← hdone, List.reverse_append, List.reverse_cons]
    simp
  | joins _ _ _ _ _ _ hj =>
    obtain ⟨_, _, rfl⟩ := Option.map_eq_some_iff.1 hj
    exact .inr ⟨rfl, hcalm⟩
  | joinedAll last => cases last <;> exact .inr ⟨rfl, hcalm⟩
  | breaks _ _ last => cases last <;> exact .inr ⟨rfl, hcalm⟩
  | recruits | spawns | finishesReaping | aims | looks => exact .inr ⟨rfl, Crew.Task.noConfusion⟩
  | _ => exact .inr ⟨rfl, hcalm⟩

/-- A controller whose crew is idle keeps what is owed. -/
theorem Acts.owes (hs : ∀ p ∈ c.crew.standings, p.Sound) (htells : c.TellsOn)
    (hlisted : ∀ i ∈ c.crew.live ++ c.crew.draining, i < c.crew.threads.length)
    (hidle : c.crew.task = .none) (ha : c.Acts w now c' e) (i : Nat) : c'.owes i = c.owes i := by
  rcases ha.tells_cases htells hidle with ⟨j, hj, hthreads, htask, htold⟩ | ⟨hthreads, hcalm⟩
  · exact owes_tell hs hidle (hlisted j hj) hthreads htask htold i
  · exact owes_of_task hthreads (by rw [hidle]; exact Crew.Task.noConfusion) hcalm i

/-- What a crew is in the middle of pays what is owed of it. -/
theorem owes_works {crew : Crew} {o : Crew.Outcome} (hb : c.crew.Balanced)
    (hw : c.crew.Works crew o) (hcrew : c'.crew = crew) (i : Nat) :
    (c.crew.gauge.isLowered crew.gauge && c.told == some i).toNat + c'.owes i =
      c.owes i := by
  have hafter : c'.told = none := told_of_task (by rw [hcrew]; exact hw.task_ne)
  have hpays : (c.crew.gauge.isLowered crew.gauge && c.told == some i) =
      (c.told == some i) := by
    by_cases htask : c.crew.task = .dropsActive
    · rw [hw.isLowered hb htask, Bool.true_and]
    · rw [told_of_task htask]
      exact Bool.and_false _
  rw [hpays, owes, owes, hafter, hcrew, hw.isActive i]
  exact Nat.add_comm _ _

/-- The steps of a controller pay what is owed of it. -/
theorem Steps.pays (hs : ∀ p ∈ c.crew.standings, p.Sound) (hb : c.crew.Balanced)
    (htells : c.TellsOn) (hlisted : ∀ i ∈ c.held, i < c.crew.threads.length)
    (hst : c.Steps w now c' e) (i : Nat) :
    (c.crew.gauge.isLowered c'.crew.gauge && c.told == some i).toNat + c'.owes i =
      c.owes i := by
  cases hst with
  | acts hidle ha =>
    have hnone : c.told = none := told_of_task (by rw [hidle]; exact Crew.Task.noConfusion)
    have hheld : ∀ i ∈ c.crew.live ++ c.crew.draining, i < c.crew.threads.length := by
      intro j hj
      rw [← Crew.held_of_idle hidle] at hj
      exact hlisted j (List.mem_append_right _ hj)
    rw [hnone, ha.owes hs htells hheld hidle i,
      show ((none : Option Nat) == some i) = false from rfl,
      Bool.and_false]
    exact Nat.zero_add _
  | works _ hw | started _ hw | joined _ _ hw | broken _ _ _ hw | refused _ hw =>
    exact owes_works hb hw rfl i

/-- When all are joined, nobody is told to retire any more. -/
theorem phase_joined_ne (c : Controller) (last : Bool) (users : List Nat) :
    (c.joined last).phase ≠ .telling users := by
  rw [Controller.joined]
  cases last with
  | false => exact Phase.noConfusion
  | true =>
    show (if c.broken = true then Phase.failed else .reporting) ≠ .telling users
    split <;> exact Phase.noConfusion

/-- The users that are still to be told stay the last ones. -/
theorem TellsOn.steps (h : c.TellsOn) (hrests : c.Rests) (hst : c.Steps w now c' e) :
    c'.TellsOn := by
  intro users hphase
  cases hst with
  | acts hidle ha =>
    cases ha with
    | closes => cases hphase; exact List.suffix_rfl
    | tells i rest hbefore =>
      cases hphase
      exact (List.suffix_cons i _).trans (h _ hbefore)
    | rests | awaits => exact h _ hphase
    | retires _ _ _ hbefore | spawns _ _ _ hbefore =>
      simp only [enrol, hbefore] at hphase
      cases hphase
    | joinedAll last => exact absurd hphase (phase_joined_ne _ last users)
    | breaks _ _ last => exact absurd hphase (phase_joined_ne _ last users)
    | _ => cases hphase
  | @works crew hbusy hw | @started crew hbusy hw | @joined crew _ hbusy hw =>
    replace hphase : c.phase = .telling users := hphase
    have hbefore := h users hphase
    rw [Rests, hphase] at hrests
    obtain ⟨hlive, hdraining⟩ := hw.lists_of_dropsActive (hrests.1.resolve_left hbusy)
    show users <:+ crew.live ++ crew.draining
    rwa [hlive, hdraining]
  | broken | refused => cases hphase

/-- No step makes a controller hold a user that was not started. -/
theorem Steps.listed (hst : c.Steps w now c' e) (hrests : c.Rests)
    (h : ∀ i ∈ c.held, i < c.crew.threads.length) : ∀ i ∈ c'.held, i < c'.crew.threads.length := by
  intro i hi
  have hcount := hst.accounted hrests i
  have hpos := List.count_pos_iff.2 hi
  by_cases hold : i ∈ c.held
  · exact Nat.lt_of_lt_of_le (h i hold) hst.change.length_le
  · rw [List.count_eq_zero_of_not_mem hold] at hcount
    exact List.mem_range.1 (List.count_pos_iff.1 (by omega))

end Controller

/-! ## Runs -/

namespace Scene

/-- What holds of a scene at every moment, whatever its controller turns to next. -/
structure Regular (s : Scene) : Prop where
  sound : ∀ p ∈ s.crew.standings, p.Sound
  balanced : s.crew.Balanced
  ordered : s.crew.Ordered
  rests : s.controller.Rests
  listed : ∀ i ∈ s.controller.held, i < s.crew.threads.length
  tellsOn : s.controller.TellsOn

variable {w : Waiting} {s s' : Scene}

/-- What happens to the crew alone and leaves its users where they are. -/
theorem Regular.of_crew {crew : Crew} {budget : Option Budget} (h : s.Regular)
    (hs : s'.controller = { s.controller with crew, budget })
    (hsound : ∀ p ∈ s'.crew.standings, p.Sound) (hbalanced : s'.crew.Balanced)
    (hroll : crew.roll = s.crew.roll) (hlength : crew.threads.length = s.crew.threads.length)
    (hrests : ({ s.controller with crew, budget } : Controller).Rests)
    (hheld : crew.held = s.crew.held) (hlive : crew.live = s.crew.live)
    (hdraining : crew.draining = s.crew.draining) : s'.Regular := by
  have hcrew : s'.crew = crew := by rw [Scene.crew, hs]
  refine ⟨hsound, hbalanced, by rw [hcrew]; exact h.ordered.congr hroll hlength, by rwa [hs],
    fun i hi => ?_, fun users hphase => ?_⟩
  · rw [hcrew, hlength]
    refine h.listed i ?_
    rw [hs, Controller.held] at hi
    rwa [Controller.held, show s.controller.crew.held = _ from hheld.symm]
  · rw [hs] at hphase ⊢
    show users <:+ crew.live ++ crew.draining
    rw [hlive, hdraining]
    exact h.tellsOn users hphase

/-- Whatever happens keeps a scene regular. -/
theorem Regular.next (h : s.Regular) (choice : Choice) : (s.next w choice).Regular := by
  have hsound := sound_next w h.sound choice
  have hbalanced := balanced_next (w := w) h.balanced h.sound h.rests h.listed choice
  -- Whose step it is decides which part of the invariant is at stake.
  cases s.next_turn w choice with
  | controller now hc =>
    rw [hc] at hsound hbalanced ⊢
    have hst := s.controller.steps w now s.aborted
    exact ⟨hsound, hbalanced, hst.ordered h.ordered, h.rests.steps hst, hst.listed h.rests h.listed,
      h.tellsOn.steps h.rests hst⟩
  | refuse hr =>
    rw [hr] at hsound hbalanced ⊢
    rcases s.crew.refuse_cases with hr' | ⟨u, ht, hr'⟩
    · rw [modifyCrew, hr'] at hsound hbalanced ⊢
      exact h
    · rw [modifyCrew, hr'] at hsound hbalanced ⊢
      refine h.of_crew rfl hsound hbalanced (by rw [Crew.roll, Crew.roll, ht]) rfl
        (h.rests.of_crew (fun htask => ?_) rfl rfl) (by rw [Crew.held, Crew.held, ht]) rfl rfl
      rw [show s.controller.crew.task = _ from ht] at htask
      rcases htask with htask | htask <;> cases htask
  | leave i _ hl =>
    rw [hl] at hsound hbalanced ⊢
    obtain ⟨htask, hlive, hdraining⟩ := s.crew.task_leave i
    exact h.of_crew rfl hsound hbalanced (by rw [Crew.roll, Crew.roll, htask, hlive])
      (s.crew.length_leave i) (h.rests.of_crew (fun _ => htask) hlive hdraining)
      (Crew.held_leave i) hlive hdraining
  | users hu =>
    refine h.of_crew hu.controller hsound hbalanced (by rw [Crew.roll, Crew.roll, hu.task, hu.live])
      hu.length (h.rests.of_crew (fun _ => hu.task) hu.live hu.draining) ?_ hu.live hu.draining
    rw [Crew.held, hu.task, hu.live, hu.draining]
    rfl

/-- At first nobody is there. -/
theorem regular_start (w : Waiting) (gens : Nat → Random.Generator) (post : Post) :
    (start w gens post).Regular := by
  have hledger := ledger_start w gens post
  refine ⟨fun _ hp => (by cases hp), ⟨rfl, rfl⟩, ⟨List.Pairwise.nil, fun _ hi => (by cases hi)⟩,
    hledger.rests, hledger.held_lt, fun users hphase => ?_⟩
  replace hphase : (Controller.new w gens post).phase = .telling users := hphase
  rw [Controller.new] at hphase
  cases hz : post.scenario.startTime.isZero <;> simp only [hz] at hphase <;> cases hphase

/-- **A scene stays regular in every run.** -/
theorem Regular.run (h : s.Regular) (choices : List Choice) : (s.run w choices).Regular :=
  run_induction w h (fun _ choice h => h.next choice) choices

/-- Whether a step lowers the count of active users for a user: its own thread does so on its way
out, or the controller that has told it to retire. -/
def lowersFor (w : Waiting) (s : Scene) (choice : Choice) (i : Nat) : Bool :=
  s.crew.gauge.isLowered (s.next w choice).crew.gauge &&
    match choice with
    | .controller _ => s.controller.told == some i
    | .leave j => j == i
    | _ => false

/-- How often the count of active users is lowered for a user. -/
def lowerings (w : Waiting) (i : Nat) (s : Scene) : List Choice → Nat
  | [] => 0
  | choice :: rest => (s.lowersFor w choice i).toNat + lowerings w i (s.next w choice) rest

/-- A step counts a user down if this is owed, and owes it no more. -/
theorem Regular.pays (h : s.Regular) (choice : Choice) (i : Nat) :
    (s.lowersFor w choice i).toNat + (s.next w choice).controller.owes i =
      s.controller.owes i := by
  -- A refused start and a user's own step lower nothing and owe nothing new; the other two pay what
  -- is owed.
  rcases next_cases w s choice with ⟨now, rfl⟩ | rfl | ⟨j, rfl, hj⟩ | hu
  · exact (s.controller.steps w now s.aborted).pays h.sound h.balanced h.tellsOn h.listed i
  · have hsame : s.lowersFor w .refuse i = false := Bool.and_false _
    rw [hsame, Bool.toNat_false, Nat.zero_add]
    rcases s.crew.refuse_cases with hr | ⟨u, ht, hr⟩
    · show (s.modifyCrew (·.refuse)).controller.owes i = _
      rw [modifyCrew, hr]
      rfl
    · refine Controller.owes_of_task (by show s.crew.refuse.threads = _; rw [hr]; rfl) ?_ ?_ i
      · rw [show s.controller.crew.task = _ from ht]
        exact Crew.Task.noConfusion
      · show s.crew.refuse.task ≠ _
        rw [hr]
        exact Crew.Task.noConfusion
  · rw [lowersFor, Scene.next, hj]
    obtain ⟨htask, hlive, hdraining⟩ := s.crew.task_leave j
    have htold : (s.modifyCrew (·.leave j)).controller.told = s.controller.told :=
      Controller.told_congr rfl htask hlive hdraining
    show (s.crew.gauge.isLowered (s.crew.leave j).gauge && j == i).toNat +
      (((s.crew.leave j).standings[i]?.elim true Standing.isActive).toNat + _) = _
    rw [htold, ← Nat.add_assoc, Crew.leave_isLowered h.balanced h.sound]
    rfl
  · have hsame : s.lowersFor w choice i = false := by
      show (s.crew.gauge.isLowered (s.next w choice).crew.gauge && _) = false
      rw [hu.gauge, Gauge.not_isLowered_self, Bool.false_and]
    rw [hsame, Bool.toNat_false, Nat.zero_add]
    exact Controller.owes_congr hu.standings
      (Controller.told_congr hu.phase hu.task hu.live hu.draining) i

/-- In every run, the count of active users is lowered for a user as often as this was owed before
and is no longer owed after it. -/
theorem lowerings_add_owes (w : Waiting) (i : Nat) {s : Scene} (h : s.Regular)
    (choices : List Choice) :
    lowerings w i s choices + (s.run w choices).controller.owes i = s.controller.owes i := by
  induction choices generalizing s with
  | nil => exact Nat.zero_add _
  | cons choice rest ih =>
    rw [lowerings, ← h.pays (w := w) choice i, ← ih (h.next choice), Nat.add_assoc]
    rfl

/-- From its start on, a user is owed that it is counted down once. -/
theorem owes_start (w : Waiting) (gens : Nat → Random.Generator) (post : Post) (i : Nat) :
    (start w gens post).controller.owes i = 1 := by
  rw [Controller.owes, Controller.told_of_task Crew.Task.noConfusion]
  rfl

end Scene

end LoadReplay
