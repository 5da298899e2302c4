import LoadReplay.Proofs.Accounts
import LoadReplay.Proofs.GaugeBalance
import Mathlib.Data.List.Forall2

/-!
# The reports of the users that are joined

A user moves from the live users of its controller to those that are told to retire, from there to
those that are about to be joined, and its report goes to the reports.  As long as no join fails,
the controller has exactly the reports of the users that it has joined, the live users are in the
order in which they were started (`Crew.Ordered`), and the counter of started users says how many
threads there are (`Scene.Tallied`).
-/

namespace LoadReplay

/-! ## The order of the live users -/

namespace Crew

/-- The live users; while the controller looks who has exited, those that it keeps and those that it
has not looked at. -/
def roll (c : Crew) : List Nat :=
  match c.task with
  | .inspects .live unseen _ left => left ++ unseen
  | _ => c.live

/-- The live users are in the order in which they were started. -/
structure Ordered (c : Crew) : Prop where
  sorted : c.roll.Pairwise (· < ·)
  started : ∀ i ∈ c.roll, i < c.threads.length

variable {c c' : Crew}

/-- The users in order are the live ones, unless some are about to be joined. -/
theorem roll_of_idle (h : c.task = .none) : c.roll = c.live := by
  rw [roll, h]

/-- Users may leave the roll, and threads may be started. -/
theorem Ordered.sublist (h : c.Ordered) (hroll : c'.roll.Sublist c.roll)
    (hlength : c.threads.length ≤ c'.threads.length) : c'.Ordered :=
  ⟨h.sorted.sublist hroll, fun i hi => Nat.lt_of_lt_of_le (h.started i (hroll.subset hi)) hlength⟩

/-- The order depends only on who is there and on how many were started. -/
theorem Ordered.congr (h : c.Ordered) (hroll : c'.roll = c.roll)
    (hlength : c'.threads.length = c.threads.length) : c'.Ordered :=
  h.sublist (by rw [hroll]) (Nat.le_of_eq hlength.symm)

/-- Telling a user to retire does not change the order. -/
theorem roll_tell (c : Crew) (i : Nat) : (c.tell i).roll = c.live := by
  rw [roll, tell]
  cases c.isRetired i <;> rfl

/-- The newest user is the last in order, so without it the others are in order. -/
theorem Ordered.retireNewest (h : c.Ordered) (hidle : c.task = .none) :
    c.retireNewest.Ordered := by
  rcases c.retireNewest_cases with hr | ⟨front, i, hfront, hr⟩ <;> rw [hr]
  · exact h
  · refine h.sublist ?_ (Nat.le_of_eq (List.length_modify _ _ _).symm)
    rw [roll_tell, roll_of_idle hidle, hfront]
    exact List.sublist_append_left front [i]

/-- A new user is younger than all others. -/
theorem Ordered.launch (h : c.Ordered) {u : User} (htask : c.task = .launches u) :
    (c.launch u).Ordered := by
  have hroll : c.roll = c.live := by rw [roll, htask]
  have hlength : (c.launch u).threads.length = c.threads.length + 1 := List.length_append
  have hnew : (c.launch u).roll = c.live ++ [c.threads.length] := rfl
  obtain ⟨hsorted, hstarted⟩ := h
  rw [hroll] at hsorted hstarted
  constructor
  · rw [hnew, List.pairwise_append]
    refine ⟨hsorted, List.pairwise_singleton _ _, fun i hi j hj => ?_⟩
    rw [List.mem_singleton.1 hj]
    exact hstarted i hi
  · intro i hi
    rw [hnew] at hi
    rw [hlength]
    rcases List.mem_append.1 hi with hi | hi
    · exact Nat.lt_succ_of_lt (hstarted i hi)
    · rw [List.mem_singleton.1 hi]
      exact Nat.lt_succ_self _

/-- What a crew is in the middle of keeps the order: who is gone is taken out of it, and who is new
comes last. -/
theorem Ordered.works {o : Outcome} (h : c.Ordered) (hw : c.Works c' o) : c'.Ordered := by
  -- Where the roll is walked through, what was seen and what is unseen still make up the same list.
  cases hw with
  | launches u htask => exact h.launch htask
  | seesGone roll i unseen gone left htask =>
    refine h.sublist ?_ (Nat.le_refl _)
    rw [Crew.roll, Crew.roll, htask]
    cases roll with
    | live => exact (List.Sublist.refl left).append (List.sublist_cons_self i unseen)
    | draining => exact List.Sublist.refl _
  | seesLeft roll i unseen gone left htask =>
    refine h.congr ?_ rfl
    rw [Crew.roll, Crew.roll, htask]
    cases roll with
    | live => exact List.append_assoc left [i] unseen
    | draining => rfl
  | parts roll gone left htask =>
    refine h.congr ?_ (by cases roll <;> rfl)
    rw [Crew.roll, Crew.roll, htask]
    cases roll with
    | live => exact (List.append_nil left).symm
    | draining => rfl
  | joins roll i gone c' htask hj =>
    obtain ⟨_, _, rfl⟩ := Option.map_eq_some_iff.1 hj
    refine h.congr ?_ rfl
    rw [Crew.roll, Crew.roll, htask]
  | idle => exact h
  | addsActive _ htask | addsRunning _ htask | raisesPeak _ _ htask | addsSpawned _ htask
  | dropsNewActive htask | dropsNewRunning htask | dropsActive htask | breaks _ _ _ htask
  | turns htask | ends htask =>
    refine h.congr ?_ rfl
    rw [Crew.roll, Crew.roll, htask]

/-! ## The counter of started users -/

/-- How many users are counted as started because of what the controller is in the middle of. -/
def Task.spawned : Task → Nat
  | .launches _ | .dropsNewActive | .dropsNewRunning => 1
  | _ => 0

/-- The counter of started users and the users go up together, one after the other, unless a user is
refused its thread. -/
theorem Works.spawned {o : Outcome} (hw : c.Works c' o) (ho : o ≠ .refused) :
    c'.gauge.spawned + (c.threads.length + c.task.spawned) =
      c.gauge.spawned + (c'.threads.length + c'.task.spawned) := by
  cases hw with
  | dropsNewRunning => exact absurd rfl ho
  | launches u htask =>
    have hlength : (c.launch u).threads.length = c.threads.length + 1 := List.length_append
    rw [hlength, htask]
    rfl
  | addsSpawned u htask =>
    rw [htask]
    show c.gauge.spawned + 1 + (c.threads.length + 0) = c.gauge.spawned + (c.threads.length + 1)
    omega
  | parts roll _ _ htask =>
    rw [htask]
    cases roll <;> rfl
  | joins _ _ _ _ htask hj =>
    obtain ⟨_, _, rfl⟩ := Option.map_eq_some_iff.1 hj
    rw [htask]
    rfl
  | idle => rfl
  | addsActive _ htask | addsRunning _ htask | raisesPeak _ _ htask | seesGone _ _ _ _ _ htask
  | seesLeft _ _ _ _ _ htask | breaks _ _ _ htask | dropsNewActive htask | dropsActive htask
  | turns htask | ends htask =>
    rw [htask]
    rfl

end Crew

namespace Controller

variable {w : Waiting} {now : Span} {c c' : Controller} {e : Effect}

/-- Each row of the table keeps the order. -/
theorem Acts.ordered (h : c.crew.Ordered) (hidle : c.crew.task = .none) (ha : c.Acts w now c' e) :
    c'.crew.Ordered := by
  have hroll := Crew.roll_of_idle hidle
  cases ha with
  | retires => exact h.retireNewest hidle
  | tells i =>
    refine h.congr ?_ (List.length_modify _ _ _)
    rw [hroll]
    exact c.crew.roll_tell i
  | recruits | spawns | finishesReaping | aims | looks => exact h.congr hroll.symm rfl
  | recruitedFixed | told =>
    refine h.sublist ?_ (Nat.le_refl _)
    have hempty : Crew.roll c.crew.release.1 = [] := Crew.roll_of_idle hidle
    rw [hempty]
    exact List.nil_sublist _
  | joins _ _ _ _ _ _ hj =>
    obtain ⟨_, _, rfl⟩ := Option.map_eq_some_iff.1 hj
    exact h.congr rfl rfl
  | joinedAll last => cases last <;> exact h
  | breaks _ _ last => cases last <;> exact h
  | _ => exact h

/-- Whatever a controller does, the live users stay in order. -/
theorem Steps.ordered (h : c.crew.Ordered) (hst : c.Steps w now c' e) : c'.crew.Ordered := by
  cases hst with
  | acts hidle ha => exact ha.ordered h hidle
  | works _ hw | started _ hw | joined _ _ hw | broken _ _ _ hw | refused _ hw => exact h.works hw

/-- An idle crew counts no user as started that it is in the middle of starting. -/
theorem Acts.spawned (hidle : c.crew.task = .none) (ha : c.Acts w now c' e) :
    c'.crew.task.spawned = 0 := by
  have hnone : c.crew.task.spawned = 0 := by rw [hidle]; rfl
  cases ha with
  | retires =>
    show c.crew.retireNewest.task.spawned = 0
    rcases c.crew.retireNewest_cases with hr | ⟨front, i, -, hr⟩ <;> rw [hr]
    · exact hnone
    · rw [Crew.task_tell]
      split <;> rfl
  | tells i =>
    show (c.crew.tell i).task.spawned = 0
    rw [Crew.task_tell]
    split <;> rfl
  | recruits | spawns | finishesReaping | aims | looks => rfl
  | joins _ _ _ _ _ _ hj =>
    obtain ⟨_, _, rfl⟩ := Option.map_eq_some_iff.1 hj
    exact hnone
  | joinedAll last => cases last <;> exact hnone
  | breaks _ _ last => cases last <;> exact hnone
  | _ => exact hnone

/-- As long as nothing fails, the counter of started users says how many threads there are, and of
the user that is about to get its thread. -/
def Counts (c : Controller) : Prop :=
  c.broken = false → c.crew.gauge.spawned = c.crew.threads.length + c.crew.task.spawned

/-- As long as nothing fails, every step of a controller counts whom it starts. -/
theorem Counts.steps (h : c.Counts) (hst : c.Steps w now c' e) : c'.Counts := by
  intro hcalm
  have hbefore : c.broken = false := by
    cases hbroken : c.broken with
    | false => rfl
    | true =>
      rw [hst.broken_of_broken hbroken] at hcalm
      cases hcalm
  have hcount := h hbefore
  cases hst with
  | acts hidle ha =>
    rw [hidle] at hcount
    rw [ha.gauge, ha.threads_length, ha.spawned hidle]
    exact hcount
  | @works crew _ hw | @started crew _ hw | @joined crew _ _ hw =>
    have hstep := hw.spawned Crew.Outcome.noConfusion
    show crew.gauge.spawned = crew.threads.length + crew.task.spawned
    omega
  | broken | refused => cases hcalm

end Controller

/-! ## The reports of those that are joined -/

namespace Crew

/-- Whether a virtual user has ended with a report. -/
def Reports (c : Crew) (i : Nat) (r : UserReport) : Prop :=
  ∃ t, c.threads[i]? = some t ∧ t.user.report? = some r

variable {c c' : Crew}

/-- Joining a user adds its report. -/
theorem join?_eq_some {i : Nat} (h : c.join? i = some c') :
    ∃ r, c.Reports i r ∧ c' = { c with reports := c.reports ++ [r] } := by
  obtain ⟨r, hr, rfl⟩ := Option.map_eq_some_iff.1 h
  exact ⟨r, Option.bind_eq_some_iff.1 hr, rfl⟩

/-- The reports of a crew are those it had, and those of some users that are joined. -/
def Gains (c c' : Crew) (users : List Nat) : Prop :=
  ∃ reports, c'.reports = c.reports ++ reports ∧ List.Forall₂ c.Reports users reports

/-- A crew with the same reports has gained none. -/
theorem Gains.of_eq (h : c'.reports = c.reports) : c.Gains c' [] :=
  ⟨[], by rw [h, List.append_nil], .nil⟩

/-- To join a user is to gain its report. -/
theorem Gains.of_join? {i : Nat} {crew : Crew} (hj : c.join? i = some crew)
    (h : c'.reports = crew.reports) : c.Gains c' [i] := by
  obtain ⟨r, hr, rfl⟩ := join?_eq_some hj
  exact ⟨[r], h, .cons hr .nil⟩

/-- A step of what a crew is in the middle of gains the reports of whom it joins. -/
theorem Works.gains {o : Outcome} (hw : c.Works c' o) (ho : ∀ i rest, o ≠ .broken i rest) :
    c.Gains c' o.settled := by
  cases hw with
  | joins roll i gone crew _ hj => exact .of_join? hj rfl
  | breaks roll i gone => exact absurd rfl (ho i gone)
  | parts roll => cases roll <;> exact .of_eq rfl
  | _ => exact .of_eq rfl

/-- A thread that cannot be started changes neither the counter nor the reports. -/
theorem refuse_reports (c : Crew) :
    c.refuse.gauge.spawned = c.gauge.spawned ∧ c.refuse.reports = c.reports := by
  rcases c.refuse_cases with hr | ⟨u, -, hr⟩ <;> rw [hr] <;> exact ⟨rfl, rfl⟩

/-- Nor does a thread on its way out. -/
theorem leave_reports (c : Crew) (i : Nat) :
    (c.leave i).gauge.spawned = c.gauge.spawned ∧ (c.leave i).reports = c.reports := by
  rcases c.leave_cases i with ⟨-, hl⟩ | ⟨t, -, hl⟩ <;> rw [hl]
  · exact ⟨rfl, rfl⟩
  · exact ⟨by cases t.exit <;> rfl, rfl⟩

/-- Nobody is joined by being told to retire. -/
theorem reports_retireNewest (c : Crew) : c.retireNewest.reports = c.reports := by
  rcases c.retireNewest_cases with hr | ⟨front, i, -, hr⟩ <;> rw [hr]
  rfl

end Crew

namespace Controller

variable {w : Waiting} {now : Span} {c c' : Controller} {e : Effect}

/-- Each row of the table gains the reports of whom it joins, as long as no join fails. -/
theorem Acts.gains (ha : c.Acts w now c' e) (hcalm : c'.broken = false) :
    c.crew.Gains c'.crew e.joined := by
  cases ha with
  | delays _ _ _ _ he | ticks _ _ _ _ _ he =>
    rcases he with rfl | ⟨_, rfl⟩
    · exact .of_eq rfl
    · exact .of_eq rfl
  | retires => exact .of_eq c.crew.reports_retireNewest
  | joins i rest last crew _ _ hj => exact .of_join? hj rfl
  | joinedAll last => cases last <;> exact .of_eq rfl
  | breaks i rest last =>
    rw [broken_joined] at hcalm
    cases hcalm
  | _ => exact .of_eq rfl

/-- Unless something fails, a step adds the reports of those users that it joins. -/
theorem Steps.gains (hst : c.Steps w now c' e) (hcalm : c'.broken = false) :
    c.crew.Gains c'.crew e.joined := by
  cases hst with
  | acts _ ha => exact ha.gains hcalm
  | works _ hw => exact hw.gains fun _ _ ho => by cases ho
  | started _ hw => exact hw.gains fun _ _ ho => by cases ho
  | joined i _ hw => exact hw.gains fun _ _ ho => by cases ho
  | broken | refused => cases hcalm

end Controller

/-! ## Runs -/

namespace Scene

variable {w : Waiting} {s s' : Scene}

/-- What holds all the time of the reports of a scenario. -/
structure Tallied (s : Scene) : Prop where
  ordered : s.crew.Ordered
  counts : s.controller.Counts
  reports : s.controller.broken = false → List.Forall₂ s.crew.Reports s.joined s.crew.reports

/-- The report of a user that has ended does not change. -/
theorem Tallied.reports_congr (h : s.Tallied)
    (hreports : ∀ i r, s.crew.Reports i r → s'.crew.Reports i r)
    (hbroken : s'.controller.broken = s.controller.broken) (hjoined : s'.joined = s.joined)
    (hsame : s'.crew.reports = s.crew.reports) :
    s'.controller.broken = false → List.Forall₂ s'.crew.Reports s'.joined s'.crew.reports := by
  intro hcalm
  rw [hbroken] at hcalm
  rw [hjoined, hsame]
  exact (h.reports hcalm).imp hreports

/-- The tally is kept by each step of the controller. -/
theorem Tallied.stepController (h : s.Tallied) (now : Span) : (s.stepController w now).Tallied := by
  have hst := s.controller.steps w now s.aborted
  refine ⟨hst.ordered h.ordered, h.counts.steps hst, fun hcalm => ?_⟩
  have hbefore : s.controller.broken = false := by
    cases hbroken : s.controller.broken with
    | false => rfl
    | true =>
      have hstill := hst.broken_of_broken hbroken
      cases hstill.symm.trans hcalm
  have hkeeps : ∀ i r, s.crew.Reports i r → (s.stepController w now).crew.Reports i r := by
    rintro i r ⟨t, ht, hr⟩
    obtain ⟨t', ht', huser⟩ := hst.change.user ht
    exact ⟨t', ht', by rw [huser, hr]⟩
  obtain ⟨reports, hreports, hnew⟩ := hst.gains hcalm
  rw [joined_stepController, show (s.stepController w now).crew.reports = _ from hreports]
  exact List.rel_append (R := (s.stepController w now).crew.Reports)
    ((h.reports hbefore).imp hkeeps) (hnew.imp hkeeps)

/-- It is kept when a thread cannot be started. -/
theorem Tallied.refuse (h : s.Tallied) : (s.modifyCrew (·.refuse)).Tallied := by
  rcases s.crew.refuse_cases with hr | ⟨u, htask, hr⟩ <;> rw [modifyCrew, hr]
  · exact ⟨h.ordered, h.counts, h.reports⟩
  · have hroll : s.crew.roll = s.crew.live := by rw [Crew.roll, htask]
    refine ⟨h.ordered.congr hroll.symm rfl, fun hcalm => ?_, h.reports⟩
    have hcount := h.counts hcalm
    rw [show s.controller.crew.task = _ from htask] at hcount
    exact hcount

/-- It is kept when a thread goes on its way out. -/
theorem Tallied.leave (h : s.Tallied) (i : Nat) : (s.modifyCrew (·.leave i)).Tallied := by
  have hlength := s.crew.length_leave i
  obtain ⟨htask, hlive, -⟩ := s.crew.task_leave i
  obtain ⟨hspawned, hreports⟩ := s.crew.leave_reports i
  refine ⟨h.ordered.congr ?_ hlength, fun hcalm => ?_, ?_⟩
  · show (s.crew.leave i).roll = s.crew.roll
    rw [Crew.roll, Crew.roll, htask, hlive]
  · show (s.crew.leave i).gauge.spawned =
      (s.crew.leave i).threads.length + (s.crew.leave i).task.spawned
    rw [hspawned, hlength, htask]
    exact h.counts hcalm
  · refine h.reports_congr ?_ rfl rfl hreports
    rintro j r ⟨t, ht, hr⟩
    refine ⟨_, Crew.thread_leave.2 ⟨t, ht, rfl⟩, ?_⟩
    split
    · rw [t.user_leave, hr]
    · exact hr

/-- It is kept by whatever users do. -/
theorem Tallied.users (h : s.Tallied) (hu : s.UsersMoved s') : s'.Tallied := by
  refine ⟨h.ordered.congr ?_ hu.length, fun hcalm => ?_, ?_⟩
  · rw [Crew.roll, Crew.roll, hu.task, hu.live]
  · rw [hu.broken] at hcalm
    show s'.crew.gauge.spawned = s'.crew.threads.length + s'.crew.task.spawned
    rw [hu.gauge, hu.length, hu.task]
    exact h.counts hcalm
  · refine h.reports_congr ?_ hu.broken (joined_of_usersMoved hu) (by rw [hu.crew])
    rintro i r ⟨t, ht, hr⟩
    have hover : t.user.isOver = true := by
      rw [User.isOver, (User.report?_eq_some.1 hr).1]
    exact ⟨t, hu.ends i t ht hover, hr⟩

/-- Whatever happens, the reports are those of the users that are joined. -/
theorem Tallied.next (h : s.Tallied) (choice : Choice) : (s.next w choice).Tallied := by
  cases s.next_turn w choice with
  | controller now hc =>
    rw [hc]
    exact h.stepController now
  | refuse hr =>
    rw [hr]
    exact h.refuse
  | leave i _ hl =>
    rw [hl]
    exact h.leave i
  | users hu => exact h.users hu

/-- **The tally is kept in every run.** -/
theorem tallied_run (w : Waiting) (gens : Nat → Random.Generator) (post : Post)
    (choices : List Choice) :
    ((start w gens post).run w choices).Tallied := by
  have hstart : (start w gens post).Tallied :=
    ⟨⟨List.Pairwise.nil, fun _ hi => (by cases hi)⟩, fun _ => rfl, fun _ => .nil⟩
  exact run_induction w hstart (fun _ choice h => h.next choice) choices

end Scene

end LoadReplay
