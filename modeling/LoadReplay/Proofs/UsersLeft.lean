import LoadReplay.Proofs.GaugeBalance
import Mathlib.Data.List.Nodup

/-!
# Which users a scenario leaves behind

When a controller has returned, every user that it started was joined or given up, and all counters
are zero but for the users that were given up (`Scene.users_left`).  So no user is left behind if
and only if none was given up, and users are only given up when joining a user has failed that was
ended by an error.
-/

namespace LoadReplay

namespace Controller

/-- Whether a controller has returned, with a report or with an error. -/
def hasReturned (c : Controller) : Bool :=
  match c.phase with
  | .ended _ | .failed => true
  | _ => false

/-- A controller that is on its way to a report has not failed to join a user. -/
def Calm (c : Controller) : Prop :=
  match c.phase with
  | .delaying _ | .reporting | .ended _ => c.broken = false
  | _ => True

variable {w : Waiting} {now : Span} {c c' : Controller} {e : Effect}

/-- The joins are followed by a report only if none of them has failed. -/
theorem calm_joined (c : Controller) (last : Bool) : (c.joined last).Calm := by
  rw [joined]
  cases last with
  | false => trivial
  | true =>
    cases c.broken with
    | true => trivial
    | false => rfl

/-- Each row of the table leads to a report only if no join has failed. -/
theorem Calm.acts (h : c.Calm) (ha : c.Acts w now c' e) : c'.Calm := by
  have hrow := h
  rw [Calm] at hrow
  cases ha with
  | rests | awaits => exact h
  | delays _ _ _ hphase | skips _ hphase | reports hphase =>
    rw [hphase] at hrow
    exact hrow
  | retires _ _ _ hphase | spawns _ _ _ hphase =>
    rw [Calm]
    simp only [enrol, hphase]
  | joinedAll last => exact c.calm_joined last
  | breaks _ _ last => exact calm_joined _ last
  | _ => trivial

/-- So does every step of a controller. -/
theorem Calm.steps (h : c.Calm) (hst : c.Steps w now c' e) : c'.Calm := by
  cases hst with
  | acts _ ha => exact h.acts ha
  | works | started | joined => exact h
  | broken | refused => trivial

/-- Users are given up when joining a user fails that is gone. -/
theorem Steps.of_breaks {i : Nat} {rest : List Nat} (hst : c.Steps w now c' (.breaks i rest))
    (hd : ∀ i ∈ c.crew.departed, c.crew.isExited i) :
    c'.broken = true ∧ c.crew.isExited i ∧ c.crew.join? i = none := by
  cases hst with
  | acts _ ha =>
    cases ha with
    | breaks _ _ last _ hi hj => exact ⟨broken_joined _ last, hi, hj⟩
    | delays _ _ _ _ he | ticks _ _ _ _ _ he => rcases he with he | ⟨_, he⟩ <;> cases he
  | broken _ _ _ hw =>
    cases hw with
    | breaks roll _ gone h hj =>
      exact ⟨rfl, hd i (by rw [Crew.departed, h]; exact List.mem_cons_self ..), hj⟩

end Controller

namespace Scene

/-- Whether some user was ended by an error. -/
def SomeCrashed (s : Scene) : Prop :=
  ∃ (i : Nat) (t : Thread), s.crew.threads[i]? = some t ∧ t.user.phase = .crashed

/-- What holds all the time of users that are given up. -/
structure GivesUp (s : Scene) : Prop where
  ledger : s.Ledger
  calm : s.controller.Calm
  /-- Only the thread of a user that has ended is on its way out. -/
  leaving : ∀ (i : Nat) (t : Thread), s.crew.threads[i]? = some t → t.exit ≠ .staying →
    t.user.isOver
  failed : s.givenUp ≠ [] → s.controller.broken = true ∧ s.SomeCrashed

variable {w : Waiting} {s s' : Scene}

/-- A user that cannot be joined though it is gone was ended by an error. -/
theorem crashed_of_join? {c : Crew} {i : Nat}
    (hover : ∀ (i : Nat) (t : Thread), c.threads[i]? = some t → t.exit ≠ .staying → t.user.isOver)
    (hi : c.isExited i) (hj : c.join? i = none) :
    ∃ t, c.threads[i]? = some t ∧ t.user.phase = .crashed := by
  rw [Crew.isExited, Option.any_eq_true] at hi
  obtain ⟨t, ht, hx⟩ := hi
  replace hx : t.exit = .exited := by simpa using hx
  have hend := hover i t ht (by rw [hx]; exact Exit.noConfusion)
  rw [Crew.join?, ht, Option.map_eq_none_iff] at hj
  replace hj : t.user.report? = none := hj
  refine ⟨t, ht, ?_⟩
  rw [User.isOver] at hend
  rw [User.report?] at hj
  cases hphase : t.user.phase with
  | crashed => rfl
  | ended => simp [hphase] at hj
  | _ => simp [hphase] at hend

/-- Steps of the controller leave the users that have ended as they are. -/
theorem GivesUp.stepController (h : s.GivesUp) (now : Span) :
    (s.stepController w now).GivesUp := by
  have hst := s.controller.steps w now s.aborted
  have hcrashed (hc : s.SomeCrashed) : (s.stepController w now).SomeCrashed := by
    obtain ⟨i, t, ht, hphase⟩ := hc
    obtain ⟨t', ht', huser⟩ := hst.change.user ht
    exact ⟨i, t', ht', by rw [huser, hphase]⟩
  refine ⟨h.ledger.stepController now, h.calm.steps hst, fun i t ht hx => ?_, fun hg => ?_⟩
  · rcases hst.change.thread ht with ⟨t₀, ht₀, huser, hexit⟩ | ⟨u, _, _, rfl⟩
    · rw [huser]
      exact h.leaving i t₀ ht₀ (by rw [← hexit]; exact hx)
    · exact absurd rfl hx
  · rw [givenUp_stepController] at hg
    by_cases hold : s.givenUp = []
    · rw [hold, List.nil_append] at hg
      match he : (s.controller.step w now s.aborted).2 with
      | .breaks i rest =>
        rw [he] at hst
        obtain ⟨hbroken, hi, hj⟩ := hst.of_breaks h.ledger.departed
        obtain ⟨t, ht, hphase⟩ := crashed_of_join? h.leaving hi hj
        exact ⟨hbroken, hcrashed ⟨i, t, ht, hphase⟩⟩
      | .nothing | .sleeps _ | .spawns | .aims _ | .joins _ =>
        rw [he] at hg
        exact absurd rfl hg
    · obtain ⟨hbroken, hc⟩ := h.failed hold
      exact ⟨hst.broken_of_broken hbroken, hcrashed hc⟩

/-- A thread that cannot be started gives nobody up. -/
theorem GivesUp.refuse (h : s.GivesUp) : (s.modifyCrew (·.refuse)).GivesUp := by
  have hledger := h.ledger.refuse
  rcases s.crew.refuse_cases with hr | ⟨u, _, hr⟩ <;> rw [modifyCrew, hr] at hledger ⊢
  · exact ⟨hledger, h.calm, h.leaving, h.failed⟩
  · exact ⟨hledger, h.calm, h.leaving, h.failed⟩

/-- Nor does a thread on its way out: it is that of a user that has ended. -/
theorem GivesUp.leave (h : s.GivesUp) {i : Nat} (hi : s.user? i = none) :
    (s.modifyCrew (·.leave i)).GivesUp := by
  refine ⟨h.ledger.leave i, h.calm, fun j t' ht' hx => ?_, fun hg => ?_⟩
  · obtain ⟨t, ht, rfl⟩ := Crew.thread_leave.1 ht'
    split at hx
    · rename_i hij
      subst hij
      rw [if_pos rfl, Thread.user_leave]
      exact isOver_of_user? hi ht
    · rename_i hij
      rw [if_neg hij]
      exact h.leaving j t ht hx
  · obtain ⟨hbroken, j, t, ht, hphase⟩ := h.failed hg
    refine ⟨hbroken, j, _, Crew.thread_leave.2 ⟨t, ht, rfl⟩, ?_⟩
    split
    · rw [Thread.user_leave, hphase]
    · exact hphase

/-- Nor does whatever users do. -/
theorem GivesUp.users (h : s.GivesUp) (hu : s.UsersMoved s') : s'.GivesUp := by
  have hledger := h.ledger.users hu
  refine ⟨hledger, ?_, fun i t' ht' hx => ?_, fun hg => ?_⟩
  · rw [Controller.Calm, hu.phase, hu.broken]
    exact h.calm
  · have hp : s'.crew.standings[i]? = some t'.standing := by
      rw [Crew.standings, List.getElem?_map, ht', Option.map_some]
    rw [hu.standings, Crew.standings, List.getElem?_map] at hp
    obtain ⟨t, ht, hst⟩ := Option.map_eq_some_iff.1 hp
    have hexit : t.exit = t'.exit := congrArg Standing.exit hst
    have hend := h.leaving i t ht (by rw [hexit]; exact hx)
    rw [hu.ends i t ht hend, Option.some.injEq] at ht'
    rwa [← ht']
  · rw [givenUp_of_usersMoved hu] at hg
    obtain ⟨hbroken, i, t, ht, hphase⟩ := h.failed hg
    refine ⟨by rw [hu.broken, hbroken], i, t, hu.ends i t ht ?_, hphase⟩
    rw [User.isOver, hphase]

/-- Whatever happens keeps the invariant. -/
theorem GivesUp.next (h : s.GivesUp) (choice : Choice) : (s.next w choice).GivesUp := by
  cases s.next_turn w choice with
  | controller now hc =>
    rw [hc]
    exact h.stepController now
  | refuse hr =>
    rw [hr]
    exact h.refuse
  | leave i hi hl =>
    rw [hl]
    exact h.leave hi
  | users hu => exact h.users hu

/-- **In every run, users are given up only where one was ended by an error.** -/
theorem givesUp_run (w : Waiting) (gens : Nat → Random.Generator) (post : Post)
    (choices : List Choice) :
    ((Scene.start w gens post).run w choices).GivesUp := by
  have hcalm : (Controller.new w gens post).Calm := by
    rw [Controller.new, Controller.Calm]
    cases post.scenario.startTime.isZero <;> trivial
  have hstart : (Scene.start w gens post).GivesUp :=
    ⟨ledger_start w gens post, hcalm, fun _ _ ht => (by cases ht), fun hg => absurd rfl hg⟩
  exact run_induction w hstart (fun _ choice h => h.next choice) choices

/-! ## When the controller has returned -/

/-- How many of some users count as running. -/
def runningAmong (s : Scene) (users : List Nat) : Nat :=
  users.countP fun i => s.crew.standings[i]?.any (·.isRunning)

/-- How many of some users count as active. -/
def activeAmong (s : Scene) (users : List Nat) : Nat :=
  users.countP fun i => s.crew.standings[i]?.any (·.isActive)

/-- A controller that has returned holds no user. -/
theorem GivesUp.held_eq_nil (h : s.GivesUp) (hret : s.controller.hasReturned) :
    s.controller.held = [] ∧ s.crew.task = .none := by
  have hrests := h.ledger.rests
  rw [Controller.hasReturned] at hret
  rw [Controller.Rests] at hrests
  rw [Controller.held, Controller.queue]
  split at hret
  · rename_i hphase
    rw [hphase] at hrests ⊢
    exact ⟨by rw [Crew.held_of_idle hrests.1, hrests.2.1, hrests.2.2]; rfl, hrests.1⟩
  · rename_i hphase
    rw [hphase] at hrests ⊢
    exact ⟨by rw [Crew.held_of_idle hrests.1, hrests.2.1, hrests.2.2]; rfl, hrests.1⟩
  · cases hret

/-- Each user was joined or given up, and only once. -/
theorem GivesUp.settled (h : s.GivesUp) (hret : s.controller.hasReturned) :
    (s.joined ++ s.givenUp).Perm (List.range s.crew.threads.length) := by
  refine List.perm_iff_count.2 fun i => ?_
  have := h.ledger.accounted i
  rw [(h.held_eq_nil hret).1, List.count_nil, Nat.zero_add] at this
  rw [List.count_append, this]

/-- Users that are gone are not counted. -/
theorem GivesUp.counts_joined (h : s.GivesUp) (hs : ∀ p ∈ s.crew.standings, p.Sound) :
    s.runningAmong s.joined = 0 ∧ s.activeAmong s.joined = 0 := by
  constructor
  · refine List.countP_eq_zero.2 fun i hi => ?_
    obtain ⟨p, hp, hx⟩ := Crew.isExited_iff.1 (h.ledger.joined i hi)
    simp [hp, Standing.isRunning, hx]
  · refine List.countP_eq_zero.2 fun i hi => ?_
    obtain ⟨p, hp, hx⟩ := Crew.isExited_iff.1 (h.ledger.joined i hi)
    have hretired : p.retired = true :=
      (hs p (List.mem_of_getElem? hp)).resolve_left (by rw [hx]; exact Exit.noConfusion)
    simp [hp, Standing.isActive, hx, hretired]

/-- Nobody is left behind: every user that was started has been told to retire or is gone, it was
joined, and no user is counted. -/
def NobodyLeft (s : Scene) : Prop :=
  (∀ i < s.crew.threads.length, (s.crew.isRetired i ∨ s.crew.isExited i) ∧ i ∈ s.joined) ∧
    s.crew.gauge.running = 0 ∧ s.crew.gauge.active = 0

/-- **Which users are left behind.**  When the controller has returned:

* every user that was started was joined when it was gone, or it was given up;
* the counters say how many of the users that were given up still run, and are still active;
* nobody is left behind if and only if no user was given up;
* if a user was given up, the controller has failed, and some user was ended by an error. -/
theorem users_left (w : Waiting) (gens : Nat → Random.Generator) (post : Post)
    (choices : List Choice)
    (hret : ((Scene.start w gens post).run w choices).controller.hasReturned) :
    let s := (Scene.start w gens post).run w choices
    (s.joined ++ s.givenUp).Perm (List.range s.crew.threads.length) ∧
      (∀ i ∈ s.joined, s.crew.isExited i) ∧
      s.crew.gauge.running = s.runningAmong s.givenUp ∧
      s.crew.gauge.active = s.activeAmong s.givenUp ∧
      (s.NobodyLeft ↔ s.givenUp = []) ∧
      (s.givenUp ≠ [] → s.controller.phase = .failed ∧ s.SomeCrashed) := by
  intro s
  have h : s.GivesUp := givesUp_run w gens post choices
  have hs : ∀ p ∈ s.crew.standings, p.Sound := run_sound w gens post choices
  have hbalanced : s.crew.Balanced := balanced_run w gens post choices
  have hperm := h.settled hret
  have htask := (h.held_eq_nil hret).2
  obtain ⟨hrunning₀, hactive₀⟩ := h.counts_joined hs
  have hcount (q : Standing → Bool) : s.crew.standings.countP q =
      (s.joined ++ s.givenUp).countP fun i => s.crew.standings[i]?.any q := by
    rw [hperm.countP_eq, ← Crew.length_standings, countP_range]
  have hrunning : s.crew.gauge.running = s.runningAmong s.givenUp := by
    rw [hbalanced.running, htask, hcount, List.countP_append]
    show s.runningAmong s.joined + s.runningAmong s.givenUp + 0 = _
    omega
  have hactive : s.crew.gauge.active = s.activeAmong s.givenUp := by
    rw [hbalanced.active, htask, hcount, List.countP_append]
    show s.activeAmong s.joined + s.activeAmong s.givenUp + 0 = _
    omega
  refine ⟨hperm, h.ledger.joined, hrunning, hactive, ⟨fun hnobody => ?_, fun hnone => ?_⟩, ?_⟩
  · -- Nobody can be joined and given up as well.
    refine List.eq_nil_iff_forall_not_mem.2 fun i hi => ?_
    have hnodup := hperm.nodup_iff.2 List.nodup_range
    have hlt := List.mem_range.1 (hperm.mem_iff.1 (List.mem_append_right s.joined hi))
    exact (List.nodup_append.1 hnodup).2.2 i (hnobody.1 i hlt).2 i hi rfl
  · rw [hnone, List.append_nil] at hperm
    refine ⟨fun i hi => ?_, by rw [hrunning, hnone]; rfl, by rw [hactive, hnone]; rfl⟩
    have hi := hperm.mem_iff.2 (List.mem_range.2 hi)
    exact ⟨.inr (h.ledger.joined i hi), hi⟩
  · intro hg
    obtain ⟨hbroken, hcrashed⟩ := h.failed hg
    refine ⟨?_, hcrashed⟩
    have hcalm := h.calm
    rw [Controller.hasReturned] at hret
    rw [Controller.Calm] at hcalm
    match hphase : s.controller.phase with
    | .failed => rfl
    | .ended _ =>
      rw [hphase, hbroken] at hcalm
      cases hcalm
    | .delaying _ | .starting | .recruiting _ | .entering | .deciding _ | .scaling _ _ _
    | .ticking _ _ | .joining _ _ | .closing | .telling _ | .reporting | .crashed =>
      simp [s, hphase] at hret

/-- Two users that share two iterations. -/
def pair : Post := { scenario := .new "pair" (.fixedIterations 2 2), groups := [] }

/-- The first user is ended by an error before it does anything, and the controller returns. -/
def abandonment : List Choice :=
  List.replicate 14 (.controller .zero) ++ .crash 0 :: List.replicate 4 (.leave 0) ++
    List.replicate 4 (.controller .zero)

/-- The two users when their controller has returned. -/
def abandoned : Scene := (Scene.start .polled (.seeded 0 "pair") pair).run .polled abandonment

/-- The second user is left behind: it was neither joined nor told to retire, and it still runs. -/
theorem users_left_abandoned :
    abandoned.controller.hasReturned ∧ abandoned.joined = [0] ∧ abandoned.givenUp = [1] ∧
      ¬abandoned.crew.isRetired 1 ∧ ¬abandoned.crew.isExited 1 ∧
      abandoned.crew.gauge.running = 1 ∧ abandoned.crew.gauge.active = 1 ∧
      ¬abandoned.NobodyLeft := by
  have hret : abandoned.controller.hasReturned := by decide +kernel
  have hgivenUp : abandoned.givenUp = [1] := by decide +kernel
  have h := users_left .polled (.seeded 0 "pair") pair abandonment hret
  have hnobody : abandoned.NobodyLeft ↔ abandoned.givenUp = [] := h.2.2.2.2.1
  rw [hgivenUp] at hnobody
  exact ⟨hret, by decide +kernel, hgivenUp, by decide +kernel, by decide +kernel,
    by decide +kernel, by decide +kernel, fun hn => by cases hnobody.1 hn⟩

end Scene

end LoadReplay
