import LoadReplay.Proofs.FixedCrew
import LoadReplay.Proofs.GaugeBalance
import LoadReplay.Proofs.JoinedReports

/-!
# Crews that nobody leaves

A crew that nobody was told to leave is as great as the number of its users, and its counters say so
(`Crew.Grown`).  Starting a user makes it greater by one (`Crew.Works.grows`), and looking for users
that are gone changes nothing about it (`Crew.Works.looks`).
-/

namespace LoadReplay

namespace Crew

/-- How many users count in the peak because of what the controller is in the middle of. -/
def Task.raised : Task → Nat
  | .addsSpawned _ | .launches _ | .dropsNewActive | .dropsNewRunning => 1
  | _ => 0

/-- A crew that nobody was told to leave. -/
structure Intact (c : Crew) : Prop where
  live : c.live = List.range c.threads.length
  draining : c.draining = []
  staying : ∀ t ∈ c.threads, t.retired = false

/-- An intact crew that has counted as many users as it has. -/
structure Grown (c : Crew) : Prop where
  intact : c.Intact
  peak : c.gauge.peak = c.threads.length + c.task.raised
  spawned : c.gauge.spawned = c.threads.length + c.task.spawned
  raises : ∀ u running, c.task = .raisesPeak u running → running = c.threads.length + 1

/-- Whether a crew has had `n` users in all, and all of them at once. -/
structure Manned (n : Nat) (c : Crew) : Prop where
  length : c.threads.length = n
  peak : c.gauge.peak = n
  spawned : c.gauge.spawned = n

/-- Whether a controller is in the middle of nothing, or of a look for users that are gone that has
not found any. -/
def Task.FindsNobody (live : List Nat) : Task → Prop
  | .none | .joins _ [] => True
  | .inspects .live unseen gone left => gone = [] ∧ left ++ unseen = live
  | .inspects .draining unseen gone left => unseen = [] ∧ gone = [] ∧ left = []
  | _ => False

/-- Whether a controller is in the middle of nothing, or counts down a user that it told to
retire. -/
def Task.IsQuiet (task : Task) : Prop := task = .none ∨ task = .dropsActive

variable {c c' : Crew} {o : Outcome}

/-- A look that has found nobody is about no counter. -/
theorem Task.FindsNobody.counts {live : List Nat} {task : Task} (h : task.FindsNobody live) :
    task.raised = 0 ∧ task.spawned = 0 ∧ task.active = 0 ∧ task.running = 0 ∧
      ∀ u running, task ≠ .raisesPeak u running := by
  cases task with
  | none | inspects | joins => exact ⟨rfl, rfl, rfl, rfl, fun _ _ => Task.noConfusion⟩
  | _ => exact h.elim

/-- All users are there when as many are started, unless one more is about to be. -/
theorem Grown.manned {live : List Nat} {n : Nat} (h : c.Grown) (htask : c.task.FindsNobody live)
    (hlength : c.threads.length = n) : c.Manned n := by
  obtain ⟨hraised, hspawned, -⟩ := htask.counts
  refine ⟨hlength, ?_, ?_⟩
  · rw [h.peak, hraised, hlength]
    rfl
  · rw [h.spawned, hspawned, hlength]
    rfl

/-- A controller in the middle of nothing has found nobody. -/
theorem Task.findsNobody_of_idle {task : Task} (h : task = .none) (live : List Nat) :
    task.FindsNobody live := by
  rw [h]
  trivial

/-- Nobody has left an intact crew. -/
theorem Intact.fresh (h : c.Intact) (hs : ∀ p ∈ c.standings, p.Sound) :
    ∀ p ∈ c.standings, p = .fresh := by
  intro p hp
  obtain ⟨t, ht, rfl⟩ := List.mem_map.1 hp
  have hretired : t.standing.retired = false := h.staying t ht
  have hexit : t.standing.exit = .staying := by
    rcases hs _ hp with hexit | htrue
    · exact hexit
    · rw [hretired] at htrue
      cases htrue
  rw [Standing.fresh, ← hretired, ← hexit]

/-- Nobody has left an intact crew, so nobody is found to be gone. -/
theorem Intact.not_exited (h : c.Intact) (hs : ∀ p ∈ c.standings, p.Sound) (i : Nat) :
    ¬c.isExited i := by
  intro hi
  obtain ⟨p, hp, hexit⟩ := isExited_iff.1 hi
  rw [h.fresh hs p (List.mem_of_getElem? hp)] at hexit
  cases hexit

/-- All users of an intact crew are active and running. -/
theorem Intact.gauge (h : c.Intact) (hs : ∀ p ∈ c.standings, p.Sound) (hbalanced : c.Balanced) :
    c.gauge.active = c.threads.length + c.task.active ∧
      c.gauge.running = c.threads.length + c.task.running := by
  have hactive : c.standings.countP Standing.isActive = c.threads.length := by
    rw [← length_standings, List.countP_eq_length]
    intro p hp
    rw [h.fresh hs p hp]
    rfl
  have hrunning : c.standings.countP Standing.isRunning = c.threads.length := by
    rw [← length_standings, List.countP_eq_length]
    intro p hp
    rw [h.fresh hs p hp]
    rfl
  exact ⟨by rw [hbalanced.active, hactive], by rw [hbalanced.running, hrunning]⟩

/-- A look for users that are gone changes nothing in a crew that nobody has left. -/
theorem Works.looks (hw : c.Works c' o) (h : c.Intact) (hnobody : ∀ i, ¬c.isExited i)
    (htask : c.task.FindsNobody c.live) :
    o = .nothing ∧ c' = { c with task := c'.task } ∧ c'.task.FindsNobody c.live := by
  -- The task is a walk through the live users and then the retired ones, of whom there are none;
  -- every other task is excluded by `htask`.
  cases hw with
  | idle ht => exact ⟨rfl, rfl, htask⟩
  | seesGone _ i _ _ _ _ hi => exact absurd hi (hnobody i)
  | seesLeft roll i unseen gone left ht =>
    rw [ht] at htask
    cases roll with
    | live =>
      obtain ⟨hgone, hleft⟩ := htask
      refine ⟨rfl, rfl, hgone, ?_⟩
      rw [List.append_assoc]
      exact hleft
    | draining => exact absurd htask.1 (List.cons_ne_nil _ _)
  | parts roll gone left ht =>
    rw [ht] at htask
    cases roll with
    | live =>
      obtain ⟨rfl, hleft⟩ := htask
      rw [List.append_nil] at hleft
      subst hleft
      exact ⟨rfl, rfl, trivial⟩
    | draining =>
      obtain ⟨-, rfl, rfl⟩ := htask
      refine ⟨rfl, ?_, trivial⟩
      rw [setRoll, ← h.draining]
  | turns ht =>
    refine ⟨rfl, rfl, ?_⟩
    exact ⟨h.draining, rfl, rfl⟩
  | ends ht => exact ⟨rfl, rfl, trivial⟩
  | joins _ _ _ _ ht | breaks _ _ _ ht | addsActive _ ht | addsRunning _ ht | raisesPeak _ _ ht
  | addsSpawned _ ht | launches _ ht | dropsNewActive ht | dropsNewRunning ht | dropsActive ht =>
    rw [ht] at htask
    exact htask.elim

/-- A crew stays as great as it is while its controller looks for users that are gone. -/
theorem Grown.looks {live live' : List Nat} {task : Task} (h : c.Grown)
    (hold : c.task.FindsNobody live) (hnew : task.FindsNobody live') :
    ({ c with task } : Crew).Grown := by
  obtain ⟨hlength, hpeak, hspawned⟩ := h.manned hold rfl
  obtain ⟨hraised, hcounted, -, -, hraises⟩ := hnew.counts
  refine ⟨⟨h.intact.live, h.intact.draining, h.intact.staying⟩, ?_, ?_, fun u running hr => ?_⟩
  · show c.gauge.peak = c.threads.length + task.raised
    rw [hraised, hpeak]
    rfl
  · show c.gauge.spawned = c.threads.length + task.spawned
    rw [hcounted, hspawned]
    rfl
  · exact absurd hr (hraises u running)

/-- Starting a user makes an intact crew greater by one, unless the user is refused its thread. -/
theorem Works.grows (hw : c.Works c' o) (h : c.Grown) (htask : c.task.begun = 1)
    (hrunning : c.gauge.running = c.threads.length + c.task.running) (ho : o ≠ .refused) :
    c'.Grown := by
  obtain ⟨hintact, hpeak, hspawned, hraises⟩ := h
  have hspawned' : c'.gauge.spawned = c'.threads.length + c'.task.spawned := by
    have hstep := hw.spawned ho
    omega
  cases hw with
  | addsActive u ht | dropsNewActive ht | addsSpawned u ht =>
    rw [ht] at hpeak
    exact ⟨⟨hintact.live, hintact.draining, hintact.staying⟩, hpeak, hspawned',
      fun _ _ hr => by cases hr⟩
  | addsRunning u ht =>
    rw [ht] at hpeak hrunning
    refine ⟨⟨hintact.live, hintact.draining, hintact.staying⟩, hpeak, hspawned',
      fun u' running hr => ?_⟩
    obtain ⟨-, rfl⟩ := Task.raisesPeak.inj hr
    exact congrArg (· + 1) hrunning
  | raisesPeak u running ht =>
    rw [ht] at hpeak
    -- The greatest number so far is raised to the count that this user has just brought about.
    have hmax : max c.gauge.peak running = c.threads.length + 1 := by
      rw [hraises u running ht, hpeak]
      exact Nat.max_eq_right (Nat.le_succ _)
    exact ⟨⟨hintact.live, hintact.draining, hintact.staying⟩, hmax, hspawned',
      fun _ _ hr => by cases hr⟩
  | launches u ht =>
    rw [ht] at hpeak
    have hlength : (c.launch u).threads.length = c.threads.length + 1 := List.length_append
    refine ⟨⟨?_, hintact.draining, ?_⟩, hpeak.trans hlength.symm, hspawned',
      fun _ _ hr => by cases hr⟩
    · rw [hlength, List.range_succ, ← hintact.live]
      rfl
    · intro t ht
      rcases List.mem_append.1 ht with ht | ht
      · exact hintact.staying t ht
      · rw [List.mem_singleton.1 ht]
  | dropsNewRunning => exact absurd rfl ho
  | idle ht | dropsActive ht | seesGone _ _ _ _ _ ht | seesLeft _ _ _ _ _ ht | parts _ _ _ ht
  | joins _ _ _ _ ht | breaks _ _ _ ht | turns ht | ends ht =>
    rw [ht] at htask
    cases htask

/-- Counting down a user that was told to retire leaves all else as it is. -/
theorem Works.countsDown (hw : c.Works c' o) (h : c.task.IsQuiet) (hbusy : c.task ≠ .none) :
    o = .nothing ∧ c' = { c with gauge := c.gauge.dropActive, task := .none } := by
  have htask := h.resolve_left hbusy
  cases hw with
  | dropsActive => exact ⟨rfl, rfl⟩
  | idle ht | addsActive _ ht | addsRunning _ ht | raisesPeak _ _ ht | addsSpawned _ ht
  | launches _ ht | dropsNewActive ht | dropsNewRunning ht | seesGone _ _ _ _ _ ht
  | seesLeft _ _ _ _ _ ht | parts _ _ _ ht | joins _ _ _ _ ht | breaks _ _ _ ht | turns ht
  | ends ht => cases ht.symm.trans htask

/-- After a user was told to retire, nothing is left to do but to count it down. -/
theorem isQuiet_tell (c : Crew) (i : Nat) : (c.tell i).task.IsQuiet := by
  rw [task_tell]
  split
  · exact .inl rfl
  · exact .inr rfl

/-! ## What threads do to a crew -/

/-- What does not concern the controller: users go on, a thread counts down, a thread cannot be
started. -/
structure Alike (c c' : Crew) : Prop where
  length : c'.threads.length = c.threads.length
  live : c'.live = c.live
  draining : c'.draining = c.draining
  reports : c'.reports = c.reports
  peak : c'.gauge.peak = c.gauge.peak
  spawned : c'.gauge.spawned = c.gauge.spawned
  task : c'.task = c.task ∨ ∃ u, c.task = .launches u ∧ c'.task = .dropsNewActive
  staying : (∀ t ∈ c.threads, t.retired = false) → ∀ t ∈ c'.threads, t.retired = false

/-- A crew stays intact when nothing happens to it that concerns its controller. -/
theorem Alike.intact (h : c.Alike c') (hintact : c.Intact) : c'.Intact :=
  ⟨by rw [h.live, h.length, hintact.live], by rw [h.draining, hintact.draining],
    h.staying hintact.staying⟩

/-- It stays as great as it is, too. -/
theorem Alike.grown (h : c.Alike c') (hgrown : c.Grown) : c'.Grown := by
  obtain ⟨hintact, hpeak, hspawned, hraises⟩ := hgrown
  refine ⟨h.intact hintact, ?_, ?_, fun u running hr => ?_⟩
  · rw [h.peak, h.length, hpeak]
    rcases h.task with htask | ⟨u, hold, hnew⟩
    · rw [htask]
    · rw [hold, hnew]
      rfl
  · rw [h.spawned, h.length, hspawned]
    rcases h.task with htask | ⟨u, hold, hnew⟩
    · rw [htask]
    · rw [hold, hnew]
      rfl
  · rw [h.length]
    rcases h.task with htask | ⟨u, -, hnew⟩
    · exact hraises u running (htask ▸ hr)
    · cases hnew.symm.trans hr

/-- Only the start of a thread can be interfered with. -/
theorem Alike.task_eq (h : c.Alike c') (hidle : c.task.begun = 0) : c'.task = c.task := by
  rcases h.task with htask | ⟨u, hold, -⟩
  · exact htask
  · rw [hold] at hidle
    cases hidle

end Crew

end LoadReplay
