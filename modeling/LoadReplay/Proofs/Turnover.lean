import LoadReplay.Proofs.CountedDown
import LoadReplay.Proofs.RampCrew
import LoadReplay.Run.Turnover
import Mathlib.Data.List.Perm.Basic

/-!
# Counts under any turnover

Users are counted in one after another, before they have their threads, and each of them is taken
out of the active ones by whoever is the first to set its flag, and out of the running ones by its
own thread.  All of these change the counters in single steps, and others come between.  So the
counters are compared with where everyone is in the middle of what (`Accounts`), and what one step
does to them is said once (`Turns`), with one rule for each kind of step.

What a scene does to its gauge is one of these runs (`Scene.exists_turnover`).

Main statement: `gauge_accounted`.
-/

namespace LoadReplay

/-! ## What can happen -/

namespace Crew.Task

/-- What whoever starts users can be in the middle of. -/
def IsEntry : Task → Prop
  | .dropsActive | .inspects _ _ _ _ | .joins _ _ => False
  | _ => True

/-- How many users that are being started are not counted as active yet. -/
def toActive : Task → Nat
  | .addsActive _ => 1
  | _ => 0

/-- How many users that are being started are not counted as running yet. -/
def toRunning : Task → Nat
  | .addsActive _ | .addsRunning _ => 1
  | _ => 0

/-- How many users that are being started are not counted as started yet. -/
def toSpawned : Task → Nat
  | .addsActive _ | .addsRunning _ | .raisesPeak _ _ | .addsSpawned _ => 1
  | _ => 0

/-- The count that the peak is about to be raised to. -/
def toPeak : Task → Nat
  | .raisesPeak _ running => running
  | _ => 0

end Crew.Task

/-- What a thread on its way out does to the counts depends on where its user stands. -/
theorem Crew.gauge_leave (c : Crew) (i : Nat) :
    (c.leave i).gauge = c.standings[i]?.elim c.gauge fun p => p.exit.count c.gauge := by
  rw [Crew.standings, List.getElem?_map]
  rcases c.leave_cases i with ⟨hnone, h⟩ | ⟨t, ht, h⟩
  · rw [h, hnone]
    rfl
  · rw [h, ht]
    rfl

namespace Turnover

/-- What comes of a choice, and whom it takes out of a count. -/
inductive Turns (v : Turnover) : Turnover → Option Lowering → Prop where
  /-- Nothing changes. -/
  | rests : Turns v v none
  | enrols (u : User) (h : v.crew.task = .none) :
    Turns v { v with crew := { v.crew with task := .addsActive u }, enrolled := v.enrolled + 1 }
      none
  | addsActive (u : User) (h : v.crew.task = .addsActive u) :
    Turns v
      { v with crew := { v.crew with gauge := v.crew.gauge.addActive, task := .addsRunning u } }
      none
  | addsRunning (u : User) (h : v.crew.task = .addsRunning u) :
    Turns v
      { v with
        crew := { v.crew with
          gauge := v.crew.gauge.addRunning
          task := .raisesPeak u (v.crew.gauge.running + 1) } }
      none
  | raisesPeak (u : User) (running : Nat) (h : v.crew.task = .raisesPeak u running) :
    Turns v
      { v with
        crew := { v.crew with gauge := v.crew.gauge.raisePeak running, task := .addsSpawned u } }
      none
  | addsSpawned (u : User) (h : v.crew.task = .addsSpawned u) :
    Turns v { v with crew := { v.crew with gauge := v.crew.gauge.addSpawned, task := .launches u } }
      none
  | launches (u : User) (h : v.crew.task = .launches u) :
    Turns v { v with crew := v.crew.launch u } none
  | refuses (u : User) (h : v.crew.task = .launches u) :
    Turns v { v with crew := { v.crew with task := .dropsNewActive } } none
  | dropsNewActive (h : v.crew.task = .dropsNewActive) :
    Turns v
      { v with crew := { v.crew with gauge := v.crew.gauge.dropActive, task := .dropsNewRunning } }
      (some (.active none))
  | dropsNewRunning (h : v.crew.task = .dropsNewRunning) :
    Turns v { v with crew := { v.crew with gauge := v.crew.gauge.dropRunning, task := .none } }
      (some (.running none))
  /-- Someone is the first to tell a user to retire. -/
  | tells (i : Nat) (p : Standing) (hp : v.crew.standings[i]? = some p) (hr : p.retired = false) :
    Turns v
      { v with
        crew := v.crew.modify i fun t => { t with retired := true }
        telling := v.telling ++ [i] }
      none
  | counts (k i : Nat) (h : v.telling.Perm (i :: v.telling.eraseIdx k)) :
    Turns v
      { v with
        crew := { v.crew with gauge := v.crew.gauge.dropActive }
        telling := v.telling.eraseIdx k }
      (some (.active (some i)))
  | leaves (i : Nat) (t : Thread) (ht : v.crew.threads[i]? = some t) :
    Turns v { v with crew := v.crew.leave i } (t.exit.lowers i)

variable {v v' : Turnover} {l : Option Lowering}

/-- Telling a user to retire that has been told changes nothing. -/
theorem modify_of_retired {c : Crew} {i : Nat} (h : c.isRetired i = true) :
    (c.modify i fun t => { t with retired := true }) = c := by
  have hthreads : c.threads.modify i (fun t => { t with retired := true }) = c.threads := by
    refine List.ext_getElem? fun j => ?_
    rw [List.getElem?_modify]
    cases ht : c.threads[j]? with
    | none => rfl
    | some t =>
      show some (if i = j then { t with retired := true } else t) = some t
      split
      · rename_i hij
        subst hij
        rw [Crew.isRetired, ht] at h
        rw [← show t.retired = true from h]
      · rfl
  rw [Crew.modify, hthreads]

/-- A choice follows the rules. -/
theorem turns (h : v.crew.task.IsEntry) (choice : Choice) :
    v.Turns (v.act choice) (v.lowers choice) := by
  -- One rule for each thing that can happen; what the crew does while it starts a user is read off
  -- its own rules.
  cases choice with
  | enrol u =>
    rw [act]
    split
    -- Only the one who swaps the flag has to count the user down; for all others nothing happens.
    · rename_i hidle
      exact .enrols u (Crew.task_of_isIdle hidle)
    · exact .rests
  | work =>
    have hw := v.crew.works
    show v.Turns { v with crew := v.crew.work.1 } v.crew.task.lowers
    generalize v.crew.work.1 = crew at hw ⊢
    generalize v.crew.work.2 = outcome at hw
    cases hw with
    | idle ht => rw [ht]; exact .rests
    | addsActive u ht => rw [ht]; exact .addsActive u ht
    | addsRunning u ht => rw [ht]; exact .addsRunning u ht
    | raisesPeak u running ht => rw [ht]; exact .raisesPeak u running ht
    | addsSpawned u ht => rw [ht]; exact .addsSpawned u ht
    | launches u ht => rw [ht]; exact .launches u ht
    | dropsNewActive ht => rw [ht]; exact .dropsNewActive ht
    | dropsNewRunning ht => rw [ht]; exact .dropsNewRunning ht
    | dropsActive ht | seesGone _ _ _ _ _ ht | seesLeft _ _ _ _ _ ht | parts _ _ _ ht
    | joins _ _ _ _ ht | breaks _ _ _ ht | turns ht | ends ht =>
      rw [ht] at h
      exact h.elim
  | refuse =>
    show v.Turns { v with crew := v.crew.refuse } none
    rcases v.crew.refuse_cases with hr | ⟨u, ht, hr⟩ <;> rw [hr]
    · exact .rests
    · exact .refuses u ht
  | tell i =>
    rw [act]
    split
    · rename_i hi
      cases hr : v.crew.isRetired i with
      | true =>
        rw [modify_of_retired hr]
        exact .rests
      | false =>
        rw [Crew.nextIndex, ← Crew.length_standings] at hi
        have hp := List.getElem?_eq_getElem hi
        rw [Crew.isRetired_eq, hp, Option.any_some] at hr
        exact .tells i _ hp hr
    · exact .rests
  | count k =>
    rw [act, lowers]
    split
    · rename_i hk
      rw [List.getElem?_eq_getElem hk]
      exact .counts k _ (List.getElem_cons_eraseIdx_perm hk).symm
    · rename_i hk
      rw [List.getElem?_eq_none (Nat.le_of_not_lt hk)]
      exact .rests
  | leave i =>
    show v.Turns { v with crew := v.crew.leave i }
      (v.crew.threads[i]?.bind fun t => t.exit.lowers i)
    cases ht : v.crew.threads[i]? with
    | none =>
      rcases v.crew.leave_cases i with ⟨-, hl⟩ | ⟨t, hsome, -⟩
      · rw [hl]
        exact .rests
      · rw [ht] at hsome
        cases hsome
    | some t => exact .leaves i t ht

/-! ## What the counters say -/

/-- The counters of running and of active users are right. -/
structure Balanced (v : Turnover) : Prop where
  running : v.crew.gauge.running =
    v.crew.standings.countP Standing.isRunning + v.crew.task.running
  active : v.crew.gauge.active =
    v.crew.standings.countP Standing.isActive + v.crew.task.active + v.telling.length

/-- Whoever is being counted in is counted in step by step. -/
theorem Turns.isEntry (ht : v.Turns v' l) (h : v.crew.task.IsEntry) : v'.crew.task.IsEntry := by
  cases ht with
  | rests | tells | counts => exact h
  | leaves i t =>
    show (v.crew.leave i).task.IsEntry
    rwa [(v.crew.task_leave i).1]
  | _ => trivial

/-- All standings stay sound in each turn. -/
theorem Turns.sound (ht : v.Turns v' l) (hs : ∀ p ∈ v.crew.standings, p.Sound) :
    ∀ p ∈ v'.crew.standings, p.Sound := by
  cases ht with
  | launches u h => exact (Crew.Change.launch u h rfl).sound hs
  | tells i =>
    have hchange : v.crew.Change (v.crew.modify i fun t => { t with retired := true }) :=
      .tell i rfl
    exact hchange.sound hs
  | leaves i => exact Crew.sound_leave hs i
  | _ => exact hs

/-- A thread on its way out counts as its stage says. -/
theorem gauge_leave {c : Crew} {i : Nat} {t : Thread} (ht : c.threads[i]? = some t) :
    (c.leave i).gauge = t.exit.count c.gauge := by
  rw [Crew.gauge_leave, Crew.standings, List.getElem?_map, ht]
  rfl

/-- Only whoever has just set its own flag takes itself out of the active ones. -/
theorem exit_of_lowers_active {exit : Exit} {i : Nat} {user : Option Nat}
    (h : some (.active user) = exit.lowers i) : exit = .dropsActive := by
  cases exit with
  | dropsActive => rfl
  | _ => cases h

/-- Only a thread that has got past its flag takes itself out of the running ones. -/
theorem exit_of_lowers_running {exit : Exit} {i : Nat} {user : Option Nat}
    (h : some (.running user) = exit.lowers i) : exit = .dropsRunning := by
  cases exit with
  | dropsRunning => rfl
  | _ => cases h

/-- Who is taken out of the active users was counted there, and is counted there no more. -/
theorem Balanced.drops_active (h : v.Balanced) {user : Option Nat}
    (ht : v.Turns v' (some (.active user))) :
    0 < v.crew.gauge.active ∧ v'.crew.gauge = v.crew.gauge.dropActive := by
  rw [h.active]
  generalize hl : some (Lowering.active user) = l at ht
  cases ht with
  | dropsNewActive htask =>
    rw [htask]
    exact ⟨Nat.add_pos_left (Nat.succ_pos _) _, rfl⟩
  | counts k i hperm =>
    rw [hperm.length_eq]
    exact ⟨Nat.succ_pos _, rfl⟩
  | leaves i t hi =>
    have hexit := exit_of_lowers_active hl
    have hmem : t.standing ∈ v.crew.standings := List.mem_map_of_mem (List.mem_of_getElem? hi)
    have hactive : t.standing.isActive = true := by
      rw [Standing.isActive, show t.standing.exit = _ from hexit]
      exact Bool.or_true _
    have hpos := List.countP_pos_iff.2 ⟨_, hmem, hactive⟩
    refine ⟨Nat.add_pos_left (Nat.add_pos_left hpos _) _, ?_⟩
    exact (gauge_leave hi).trans (by rw [hexit]; rfl)
  | _ => cases hl

/-- And so it is with the running users. -/
theorem Balanced.drops_running (h : v.Balanced) {user : Option Nat}
    (ht : v.Turns v' (some (.running user))) :
    0 < v.crew.gauge.running ∧ v'.crew.gauge = v.crew.gauge.dropRunning := by
  rw [h.running]
  generalize hl : some (Lowering.running user) = l at ht
  cases ht with
  | dropsNewRunning htask =>
    rw [htask]
    exact ⟨Nat.succ_pos _, rfl⟩
  | leaves i t hi =>
    have hexit := exit_of_lowers_running hl
    have hmem : t.standing ∈ v.crew.standings := List.mem_map_of_mem (List.mem_of_getElem? hi)
    have hrunning : t.standing.isRunning = true := by
      rw [Standing.isRunning, show t.standing.exit = _ from hexit]
    have hpos := List.countP_pos_iff.2 ⟨_, hmem, hrunning⟩
    exact ⟨Nat.add_pos_left hpos _, (gauge_leave hi).trans (by rw [hexit]; rfl)⟩
  | _ => cases hl

/-- A step that takes nobody out of a count lowers none. -/
theorem Turns.le (ht : v.Turns v' none) :
    v.crew.gauge.active ≤ v'.crew.gauge.active ∧ v.crew.gauge.running ≤ v'.crew.gauge.running := by
  generalize hl : none = l at ht
  cases ht with
  | addsActive => exact ⟨Nat.le_succ _, Nat.le_refl _⟩
  | addsRunning => exact ⟨Nat.le_refl _, Nat.le_succ _⟩
  | leaves i t hi =>
    show _ ≤ (v.crew.leave i).gauge.active ∧ _ ≤ (v.crew.leave i).gauge.running
    rw [gauge_leave hi]
    cases hexit : t.exit with
    | dropsActive | dropsRunning =>
      rw [hexit] at hl
      cases hl
    | staying | closing | exited => exact ⟨Nat.le_refl _, Nat.le_refl _⟩
  | dropsNewActive | dropsNewRunning | counts => cases hl
  | rests | enrols | raisesPeak | addsSpawned | launches | refuses | tells =>
    exact ⟨Nat.le_refl _, Nat.le_refl _⟩

/-- The counters say who is active and running, counting those who are in the middle of being
counted. -/
theorem Balanced.turns (h : v.Balanced) (hs : ∀ p ∈ v.crew.standings, p.Sound)
    (ht : v.Turns v' l) : v'.Balanced := by
  obtain ⟨hr, ha⟩ := h
  -- Each rule moves one unit between a count and those who are about to change it.
  cases ht with
  | rests => exact ⟨hr, ha⟩
  | enrols _ htask | raisesPeak _ _ htask | addsSpawned _ htask | refuses _ htask =>
    rw [htask] at hr ha
    exact ⟨hr, ha⟩
  | addsActive _ htask =>
    rw [htask] at hr ha
    refine ⟨hr, ?_⟩
    show v.crew.gauge.active + 1 = v.crew.standings.countP _ + 1 + v.telling.length
    rw [ha]
    exact Nat.add_right_comm _ _ _
  | addsRunning _ htask =>
    rw [htask] at hr ha
    exact ⟨congrArg (· + 1) hr, ha⟩
  | launches u htask =>
    rw [htask] at hr ha
    constructor
    · rw [Crew.standings_launch, List.countP_append]
      exact hr
    · rw [Crew.standings_launch, List.countP_append]
      exact ha
  | dropsNewActive htask =>
    rw [htask] at hr ha
    refine ⟨hr, ?_⟩
    show v.crew.gauge.active - 1 = v.crew.standings.countP _ + 0 + v.telling.length
    replace ha : v.crew.gauge.active = v.crew.standings.countP _ + 1 + v.telling.length := ha
    omega
  | dropsNewRunning htask =>
    rw [htask] at hr ha
    exact ⟨congrArg (· - 1) hr, ha⟩
  | tells i p hp hretired =>
    obtain ⟨hcr, hca⟩ := Crew.countP_tell hs hp
    have htold := v.crew.standings_tell i
    constructor
    · show v.crew.gauge.running = (v.crew.tell i).standings.countP _ + v.crew.task.running
      rw [htold, hcr, hr]
    · show v.crew.gauge.active = (v.crew.tell i).standings.countP _ + v.crew.task.active +
        (v.telling ++ [i]).length
      rw [hretired] at hca
      replace hca : (v.crew.standings.modify i .tell).countP Standing.isActive + 1 = _ := hca
      rw [htold, List.length_append, List.length_singleton]
      omega
  | counts k i hperm =>
    refine ⟨hr, ?_⟩
    show v.crew.gauge.active - 1 = v.crew.standings.countP _ + v.crew.task.active +
      (v.telling.eraseIdx k).length
    rw [hperm.length_eq, List.length_cons] at ha
    omega
  | leaves i t =>
    obtain ⟨hrunning, hactive⟩ := Crew.countP_leave hs
      (hr ▸ Nat.le_add_right _ _) (by omega) i
    constructor
    · show (v.crew.leave i).gauge.running =
        (v.crew.leave i).standings.countP _ + (v.crew.leave i).task.running
      rw [(v.crew.task_leave i).1]
      omega
    · show (v.crew.leave i).gauge.active =
        (v.crew.leave i).standings.countP _ + (v.crew.leave i).task.active + v.telling.length
      rw [(v.crew.task_leave i).1]
      omega

/-! ## What is written down -/

/-- What is written down in a turn is added to what was counted before. -/
theorem countP_note (v : Turnover) (l : Option Lowering) (q : Lowering → Bool) :
    (v.note l).lowered.countP q = v.lowered.countP q + (l.any q).toNat := by
  cases l with
  | none => rfl
  | some a =>
    show (a :: v.lowered).countP q = v.lowered.countP q + (q a).toNat
    rw [List.countP_cons]
    cases q a <;> rfl

/-- All users that were begun to be started are counted, were taken out, or are about to be counted
in. -/
structure Conserved (v : Turnover) : Prop where
  active : v.crew.gauge.active + v.lowered.countP Lowering.isActive + v.crew.task.toActive =
    v.enrolled
  running : v.crew.gauge.running + v.lowered.countP Lowering.isRunning + v.crew.task.toRunning =
    v.enrolled
  spawned : v.crew.gauge.spawned + v.crew.task.toSpawned = v.enrolled

/-- What a thread on its way out takes off a counter is the one that it writes down. -/
theorem Balanced.count_add_lowers (h : v.Balanced) {i : Nat} {t : Thread}
    (hi : v.crew.threads[i]? = some t) :
    (t.exit.count v.crew.gauge).active + ((t.exit.lowers i).any Lowering.isActive).toNat =
        v.crew.gauge.active ∧
      (t.exit.count v.crew.gauge).running + ((t.exit.lowers i).any Lowering.isRunning).toNat =
        v.crew.gauge.running ∧
      (t.exit.count v.crew.gauge).spawned = v.crew.gauge.spawned := by
  have hturns := Turns.leaves (v := v) i t hi
  cases hx : t.exit with
  | staying | closing | exited => exact ⟨rfl, rfl, rfl⟩
  | dropsActive =>
    rw [hx] at hturns
    exact ⟨Nat.sub_add_cancel (h.drops_active hturns).1, rfl, rfl⟩
  | dropsRunning =>
    rw [hx] at hturns
    exact ⟨rfl, Nat.sub_add_cancel (h.drops_running hturns).1, rfl⟩

/-- A thread on its way out is counted, or it was taken out. -/
theorem Conserved.leaves (h : v.Conserved) (hb : v.Balanced) {i : Nat} {t : Thread}
    (hi : v.crew.threads[i]? = some t) :
    ({ v with crew := v.crew.leave i }.note (t.exit.lowers i)).Conserved := by
  obtain ⟨ha, hr, hs⟩ := h
  obtain ⟨hactive, hrunning, hspawned⟩ := hb.count_add_lowers hi
  rw [← gauge_leave hi] at hactive hrunning hspawned
  have htask := (v.crew.task_leave i).1
  refine ⟨?_, ?_, ?_⟩
  · rw [countP_note]
    show (v.crew.leave i).gauge.active + (v.lowered.countP _ + _) +
      (v.crew.leave i).task.toActive = v.enrolled
    rw [htask]
    omega
  · rw [countP_note]
    show (v.crew.leave i).gauge.running + (v.lowered.countP _ + _) +
      (v.crew.leave i).task.toRunning = v.enrolled
    rw [htask]
    omega
  · show (v.crew.leave i).gauge.spawned + (v.crew.leave i).task.toSpawned = v.enrolled
    rw [htask, hspawned, hs]

/-- As many users are counted or were taken out as were begun to be counted in. -/
theorem Conserved.turns (h : v.Conserved) (hb : v.Balanced) (ht : v.Turns v' l) :
    (v'.note l).Conserved := by
  obtain ⟨ha, hr, hs⟩ := h
  have hturns := ht
  -- Where something is taken out of a count, `Balanced` says that it was there, so the difference
  -- is exact.
  cases ht with
  | rests | tells => exact ⟨ha, hr, hs⟩
  | enrols _ htask =>
    rw [htask] at ha hr hs
    exact ⟨congrArg (· + 1) ha, congrArg (· + 1) hr, congrArg (· + 1) hs⟩
  | addsActive _ htask =>
    rw [htask] at ha hr hs
    exact ⟨(Nat.add_right_comm _ 1 _).trans ha, hr, hs⟩
  | addsRunning _ htask =>
    rw [htask] at ha hr hs
    exact ⟨ha, (Nat.add_right_comm _ 1 _).trans hr, hs⟩
  | raisesPeak _ _ htask | addsSpawned _ htask | launches _ htask | refuses _ htask =>
    rw [htask] at ha hr hs
    exact ⟨ha, hr, hs⟩
  | dropsNewActive htask =>
    have hpos := (hb.drops_active hturns).1
    rw [htask] at ha hr hs
    refine ⟨?_, by rw [countP_note]; exact hr, hs⟩
    rw [countP_note]
    show v.crew.gauge.active - 1 + (v.lowered.countP _ + 1) + 0 = v.enrolled
    replace ha : v.crew.gauge.active + v.lowered.countP Lowering.isActive + 0 = v.enrolled := ha
    omega
  | dropsNewRunning htask =>
    have hpos := (hb.drops_running hturns).1
    rw [htask] at ha hr hs
    refine ⟨by rw [countP_note]; exact ha, ?_, hs⟩
    rw [countP_note]
    show v.crew.gauge.running - 1 + (v.lowered.countP _ + 1) + 0 = v.enrolled
    replace hr : v.crew.gauge.running + v.lowered.countP Lowering.isRunning + 0 = v.enrolled := hr
    omega
  | counts k i =>
    have hpos := (hb.drops_active hturns).1
    refine ⟨?_, by rw [countP_note]; exact hr, hs⟩
    rw [countP_note]
    show v.crew.gauge.active - 1 + (v.lowered.countP _ + 1) + v.crew.task.toActive = v.enrolled
    omega
  | leaves i t hi => exact Conserved.leaves ⟨ha, hr, hs⟩ hb hi

/-- The peak is the greatest count of running users so far, or it is about to be raised to it. -/
structure Peaks (v : Turnover) : Prop where
  mem : max v.crew.gauge.peak v.crew.task.toPeak ∈ v.readings
  le : ∀ n ∈ v.readings, n ≤ max v.crew.gauge.peak v.crew.task.toPeak
  now : v.crew.gauge.running ∈ v.readings

/-- Only a greater count of running users can make a difference. -/
theorem Peaks.of_le (h : v.Peaks)
    (hmax : max v'.crew.gauge.peak v'.crew.task.toPeak =
      max v.crew.gauge.peak v.crew.task.toPeak)
    (hle : v'.crew.gauge.running ≤ v.crew.gauge.running) (hreadings : v'.readings = v.readings) :
    (v'.note l).Peaks := by
  have hnote : (v'.note l).readings = v'.crew.gauge.running :: v.readings := by
    rw [note, hreadings]
  refine ⟨?_, fun n hn => ?_, ?_⟩
  · rw [hnote]
    exact List.mem_cons_of_mem _ (hmax ▸ h.mem)
  · show n ≤ max v'.crew.gauge.peak v'.crew.task.toPeak
    rw [hnote] at hn
    rw [hmax]
    rcases List.mem_cons.1 hn with rfl | hn
    · exact Nat.le_trans hle (h.le _ h.now)
    · exact h.le n hn
  · rw [hnote]
    exact List.mem_cons_self

/-- The peak and what is still to be compared with it are the greatest reading of the running count.
-/
theorem Peaks.turns (h : v.Peaks) (ht : v.Turns v' l) : (v'.note l).Peaks := by
  cases ht with
  | addsRunning u htask =>
    -- The new count is the greatest one, or the peak was reached before.
    obtain ⟨hmem, hle, hnow⟩ := h
    rw [htask] at hmem hle
    replace hmem : v.crew.gauge.peak ∈ v.readings := by
      rwa [show max v.crew.gauge.peak (Crew.Task.toPeak (.addsRunning u)) = v.crew.gauge.peak from
        Nat.max_eq_left (Nat.zero_le _)] at hmem
    replace hle : ∀ n ∈ v.readings, n ≤ v.crew.gauge.peak := fun n hn =>
      Nat.le_trans (hle n hn) (Nat.max_le.2 ⟨Nat.le_refl _, Nat.zero_le _⟩)
    refine ⟨?_, fun n hn => ?_, List.mem_cons_self⟩
    · show max v.crew.gauge.peak (v.crew.gauge.running + 1) ∈
        (v.crew.gauge.running + 1) :: v.readings
      rcases Nat.le_total v.crew.gauge.peak (v.crew.gauge.running + 1) with hpeak | hpeak
      · rw [Nat.max_eq_right hpeak]
        exact List.mem_cons_self
      · rw [Nat.max_eq_left hpeak]
        exact List.mem_cons_of_mem _ hmem
    · rcases List.mem_cons.1 hn with rfl | hn
      · exact Nat.le_max_right _ _
      · exact Nat.le_trans (hle n hn) (Nat.le_max_left _ _)
  | raisesPeak u running htask =>
    refine h.of_le ?_ (Nat.le_refl _) rfl
    rw [htask]
    exact Nat.max_eq_left (Nat.zero_le _)
  | dropsNewRunning htask => exact h.of_le (by rw [htask]; rfl) (Nat.sub_le _ _) rfl
  | rests | tells | counts => exact h.of_le rfl (Nat.le_refl _) rfl
  | leaves i t =>
    obtain ⟨hle, hpeak⟩ := v.crew.gauge_leave_le i
    refine h.of_le ?_ hle rfl
    show max (v.crew.leave i).gauge.peak (v.crew.leave i).task.toPeak = _
    rw [hpeak, (v.crew.task_leave i).1]
  | enrols _ htask | addsActive _ htask | addsSpawned _ htask | launches _ htask
  | refuses _ htask | dropsNewActive htask =>
    exact h.of_le (by rw [htask]; rfl) (Nat.le_refl _) rfl

/-! ## What is done for one user -/

/-- What is written down in a turn is added to what was written down before. -/
theorem count_note (v : Turnover) (l : Option Lowering) (a : Lowering) :
    (v.note l).lowered.count a = v.lowered.count a + (l.any (· == a)).toNat :=
  v.countP_note l (· == a)

/-- A thread takes its user out of a count with the step after which the user counts no more. -/
theorem lowers_leave {p : Standing} (hs : p.Sound) (i : Nat) :
    ((p.exit.lowers i).any (· == .active (some i))).toNat + p.leave.isActive.toNat =
        p.isActive.toNat ∧
      ((p.exit.lowers i).any (· == .running (some i))).toNat + p.leave.isRunning.toNat =
        p.isRunning.toNat := by
  obtain ⟨retired, exit⟩ := p
  cases exit with
  | staying => cases retired <;> exact ⟨rfl, rfl⟩
  | dropsActive =>
    obtain rfl : retired = true := hs.resolve_left Exit.noConfusion
    refine ⟨?_, rfl⟩
    show (Lowering.active (some i) == .active (some i)).toNat + 0 = 1
    rw [beq_self_eq_true, Bool.toNat_true]
  | dropsRunning =>
    obtain rfl : retired = true := hs.resolve_left Exit.noConfusion
    refine ⟨rfl, ?_⟩
    show (Lowering.running (some i) == .running (some i)).toNat + 0 = 1
    rw [beq_self_eq_true, Bool.toNat_true]
  | closing | exited =>
    obtain rfl : retired = true := hs.resolve_left Exit.noConfusion
    exact ⟨rfl, rfl⟩

/-- It takes nobody else out. -/
theorem lowers_ne {i j : Nat} (h : j ≠ i) (exit : Exit) :
    (exit.lowers j).any (· == .active (some i)) = false ∧
      (exit.lowers j).any (· == .running (some i)) = false := by
  cases exit <;> simp [Exit.lowers, h]

/-- Each user, whether it was started or not, was taken out of a count, or it is still to be taken
out, and only once. -/
structure Owed (v : Turnover) (i : Nat) : Prop where
  active : v.lowered.count (.active (some i)) +
    ((v.crew.standings[i]?.elim true Standing.isActive).toNat + v.telling.count i) = 1
  running : v.lowered.count (.running (some i)) +
    (v.crew.standings[i]?.elim true Standing.isRunning).toNat = 1

/-- Whoever is the first to tell a user to retire takes over from the user that it is to be counted
as no longer active. -/
theorem Owed.tells {i j : Nat} {p : Standing} (h : v.Owed i)
    (hs : ∀ p ∈ v.crew.standings, p.Sound) (hp : v.crew.standings[j]? = some p)
    (hretired : p.retired = false) :
    ({ v with
      crew := v.crew.modify j fun t => { t with retired := true }
      telling := v.telling ++ [j] }.note none).Owed i := by
  suffices hstands :
      ((v.crew.tell j).standings[i]?.elim true Standing.isActive).toNat +
          (v.telling ++ [j]).count i =
        (v.crew.standings[i]?.elim true Standing.isActive).toNat + v.telling.count i ∧
      (v.crew.tell j).standings[i]?.elim true Standing.isRunning =
        v.crew.standings[i]?.elim true Standing.isRunning by
    obtain ⟨hactive, hrunning⟩ := hstands
    exact ⟨(congrArg (v.lowered.count _ + ·) hactive).trans h.active,
      (congrArg (fun b => v.lowered.count _ + b.toNat) hrunning).trans h.running⟩
  rw [Crew.standings_tell, List.count_append]
  by_cases hji : j = i
  · subst hji
    -- Whoever is not told to retire is active, and is about to be counted as not active.
    have hsound := hs p (List.mem_of_getElem? hp)
    obtain ⟨retired, exit⟩ := p
    obtain rfl : retired = false := hretired
    obtain rfl : exit = .staying := hsound.resolve_right Bool.noConfusion
    rw [List.getElem?_modify_eq, hp, List.count_singleton_self]
    exact ⟨(Nat.zero_add _).trans (Nat.add_comm _ 1), rfl⟩
  · rw [List.getElem?_modify_ne _ _ hji, List.count_singleton, if_neg (by simpa using hji)]
    exact ⟨rfl, rfl⟩

/-- Whoever has told a user to retire pays what it owes. -/
theorem Owed.counts {i j k : Nat} (h : v.Owed i)
    (hperm : v.telling.Perm (j :: v.telling.eraseIdx k)) :
    ({ v with
      crew := { v.crew with gauge := v.crew.gauge.dropActive }
      telling := v.telling.eraseIdx k }.note (some (.active (some j)))).Owed i := by
  have ha := h.active
  have hcount := hperm.count_eq i
  rw [List.count_cons] at hcount
  refine ⟨?_, by rw [count_note]; exact h.running⟩
  rw [count_note]
  show v.lowered.count (.active (some i)) +
    (Lowering.active (some j) == .active (some i)).toNat +
    ((v.crew.standings[i]?.elim true Standing.isActive).toNat +
      (v.telling.eraseIdx k).count i) = 1
  by_cases hji : j = i
  · subst hji
    rw [if_pos (beq_self_eq_true j)] at hcount
    rw [beq_self_eq_true, Bool.toNat_true]
    omega
  · rw [if_neg (by simpa using hji)] at hcount
    rw [show (Lowering.active (some j) == .active (some i)) = false by simpa using hji,
      Bool.toNat_false]
    omega

/-- A thread on its way out takes out its own user and nobody else. -/
theorem elim_leave {i j : Nat} {t : Thread} (hs : ∀ p ∈ v.crew.standings, p.Sound)
    (hj : v.crew.threads[j]? = some t) :
    ((t.exit.lowers j).any (· == .active (some i))).toNat +
          ((v.crew.leave j).standings[i]?.elim true Standing.isActive).toNat =
        (v.crew.standings[i]?.elim true Standing.isActive).toNat ∧
      ((t.exit.lowers j).any (· == .running (some i))).toNat +
          ((v.crew.leave j).standings[i]?.elim true Standing.isRunning).toNat =
        (v.crew.standings[i]?.elim true Standing.isRunning).toNat := by
  have hp : v.crew.standings[j]? = some t.standing := by
    rw [Crew.standings, List.getElem?_map, hj, Option.map_some]
  rw [Crew.standings_leave]
  by_cases hji : j = i
  · subst hji
    rw [List.getElem?_modify_eq, hp]
    exact lowers_leave (hs _ (List.mem_of_getElem? hp)) j
  · obtain ⟨hactive, hrunning⟩ := lowers_ne hji t.exit
    rw [List.getElem?_modify_ne _ _ hji, hactive, hrunning]
    exact ⟨Nat.zero_add _, Nat.zero_add _⟩

/-- What a thread on its way out writes down is what it no longer owes. -/
theorem Owed.leaves {i j : Nat} {t : Thread} (h : v.Owed i)
    (hs : ∀ p ∈ v.crew.standings, p.Sound) (hj : v.crew.threads[j]? = some t) :
    ({ v with crew := v.crew.leave j }.note (t.exit.lowers j)).Owed i := by
  obtain ⟨ha, hr⟩ := h
  obtain ⟨hactive, hrunning⟩ := elim_leave (i := i) hs hj
  constructor
  · rw [count_note]
    show v.lowered.count _ + _ +
      (((v.crew.leave j).standings[i]?.elim true _).toNat + v.telling.count i) = 1
    omega
  · rw [count_note]
    show v.lowered.count _ + _ + ((v.crew.leave j).standings[i]?.elim true _).toNat = 1
    omega

/-- Each user has been taken out of a count, or somebody owes it, or nobody has begun to. -/
theorem Owed.turns {i : Nat} (h : v.Owed i) (hs : ∀ p ∈ v.crew.standings, p.Sound)
    (ht : v.Turns v' l) : (v'.note l).Owed i := by
  obtain ⟨ha, hr⟩ := h
  cases ht with
  | launches u =>
    have hlaunch {q : Standing → Bool} := v.crew.elim_launch u i (q := q)
    constructor
    · show _ + (((v.crew.launch u).standings[i]?.elim true _).toNat + _) = 1
      rw [hlaunch rfl]
      exact ha
    · show _ + ((v.crew.launch u).standings[i]?.elim true _).toNat = 1
      rw [hlaunch rfl]
      exact hr
  | dropsNewActive | dropsNewRunning =>
    exact ⟨by rw [count_note]; exact ha, by rw [count_note]; exact hr⟩
  | tells j p hp hretired => exact Owed.tells ⟨ha, hr⟩ hs hp hretired
  | counts k j hperm => exact Owed.counts ⟨ha, hr⟩ hperm
  | leaves j t hj => exact Owed.leaves ⟨ha, hr⟩ hs hj
  | rests | enrols | addsActive | addsRunning | raisesPeak | addsSpawned | refuses =>
    exact ⟨ha, hr⟩

/-! ## Runs -/

/-- What holds of a turnover at every moment. -/
structure Accounts (v : Turnover) : Prop where
  isEntry : v.crew.task.IsEntry
  sound : ∀ p ∈ v.crew.standings, p.Sound
  balanced : v.Balanced
  conserved : v.Conserved
  peaks : v.Peaks
  owed : ∀ i, v.Owed i

/-- Whatever happens keeps the accounts. -/
theorem Accounts.next (h : v.Accounts) (choice : Choice) : (v.next choice).Accounts := by
  have ht := turns h.isEntry choice
  have hbalanced := h.balanced.turns h.sound ht
  exact ⟨ht.isEntry h.isEntry, ht.sound h.sound, ⟨hbalanced.running, hbalanced.active⟩,
    h.conserved.turns h.balanced ht, h.peaks.turns ht, fun i => (h.owed i).turns h.sound ht⟩

/-- At first nobody is there, and all counters are zero. -/
theorem accounts_start : start.Accounts :=
  ⟨trivial, fun _ hp => (by cases hp), ⟨rfl, rfl⟩, ⟨rfl, rfl, rfl⟩,
    ⟨List.mem_singleton_self 0, fun _ hn => Nat.le_of_eq (List.mem_singleton.1 hn),
      List.mem_singleton_self 0⟩, fun _ => ⟨rfl, rfl⟩⟩

/-- **The accounts are right in every run.** -/
theorem Accounts.run (h : v.Accounts) (choices : List Choice) : (v.run choices).Accounts := by
  induction choices generalizing v with
  | nil => exact h
  | cons choice rest ih => exact ih (h.next choice)

/-! ## What the accounts say -/

/-- How often a user was taken out of the counts, as its thread and its flag show. -/
structure CountedOnce (v : Turnover) (i : Nat) : Prop where
  /-- Once it is told to retire, it was counted as no longer active, or somebody is about to. -/
  active : v.lowered.count (.active (some i)) + v.due i = (v.crew.isRetired i).toNat
  /-- Once its thread has left, it was counted as no longer running. -/
  running : v.lowered.count (.running (some i)) = (v.hasLeft i).toNat
  /-- When its thread has exited, only those who told it to retire can be late. -/
  exited : v.crew.isExited i → v.lowered.count (.running (some i)) = 1 ∧
    v.lowered.count (.active (some i)) + v.telling.count i = 1

/-- A user that is told to retire is active only as long as its own thread is about to count it. -/
theorem active_add_retired {p : Standing} (hs : p.Sound) :
    p.isActive.toNat + p.retired.toNat = 1 + (p.exit == .dropsActive).toNat := by
  obtain ⟨retired, exit⟩ := p
  cases retired with
  | true => exact Nat.add_comm _ _
  | false =>
    obtain rfl : exit = .staying := hs.resolve_right Bool.noConfusion
    rfl

/-- A user is running or its thread has counted it out. -/
theorem running_add_left (p : Standing) :
    p.isRunning.toNat + (p.exit == .closing || p.exit == .exited).toNat = 1 := by
  obtain ⟨retired, exit⟩ := p
  cases exit <;> rfl

/-- So each user is taken out of either count at most once, and once when it is gone. -/
theorem Accounts.countedOnce (h : v.Accounts) (i : Nat) : v.CountedOnce i := by
  obtain ⟨hactive, hrunning⟩ := h.owed i
  have hdue : v.due i =
      v.telling.count i + (v.crew.standings[i]?.any (·.exit == .dropsActive)).toNat := by
    rw [due, Crew.standings, List.getElem?_map, Option.any_map]
    rfl
  have hleft : v.hasLeft i =
      v.crew.standings[i]?.any fun p => p.exit == .closing || p.exit == .exited := by
    rw [hasLeft, Crew.standings, List.getElem?_map, Option.any_map]
    rfl
  -- The first two parts are about counts; the third follows from them for a thread that has exited.
  suffices hcounts : v.lowered.count (.active (some i)) + v.due i = (v.crew.isRetired i).toNat ∧
      v.lowered.count (.running (some i)) = (v.hasLeft i).toNat by
    refine ⟨hcounts.1, hcounts.2, fun hexited => ?_⟩
    obtain ⟨p, hp, hexit⟩ := Crew.isExited_iff.1 hexited
    have hretired : p.retired = true :=
      (h.sound p (List.mem_of_getElem? hp)).resolve_left (by rw [hexit]; exact Exit.noConfusion)
    rw [hp, Option.elim_some, Standing.isActive, hretired, hexit] at hactive
    rw [hp, Option.elim_some, Standing.isRunning, hexit] at hrunning
    exact ⟨hrunning, by rw [← hactive]; exact congrArg _ (Nat.zero_add _).symm⟩
  rw [hdue, hleft, Crew.isRetired_eq]
  cases hp : v.crew.standings[i]? with
  | none =>
    rw [hp, Option.elim_none, Bool.toNat_true] at hactive hrunning
    rw [Option.any_none, Option.any_none, Option.any_none, Bool.toNat_false]
    omega
  | some p =>
    have hretired := active_add_retired (h.sound p (List.mem_of_getElem? hp))
    have hgone := running_add_left p
    rw [hp, Option.elim_some] at hactive hrunning
    rw [Option.any_some, Option.any_some, Option.any_some]
    omega

/-- When the threads of all users have exited, what is still counted is what someone is in the
middle of. -/
theorem Accounts.of_exited (h : v.Accounts) (hexited : ∀ i < v.crew.nextIndex, v.crew.isExited i) :
    v.crew.gauge.running = v.crew.task.running ∧
      v.crew.gauge.active = v.crew.task.active + v.telling.length := by
  have hgone : ∀ p ∈ v.crew.standings, p.exit = .exited := by
    intro p hp
    obtain ⟨i, hi, hpi⟩ := List.mem_iff_getElem.1 hp
    rw [Crew.length_standings] at hi
    obtain ⟨p', hp', hexit⟩ := Crew.isExited_iff.1 (hexited i hi)
    rw [List.getElem?_eq_some_iff] at hp'
    obtain ⟨_, hp'⟩ := hp'
    rw [← hpi, hp', hexit]
  have hrunning : v.crew.standings.countP Standing.isRunning = 0 :=
    List.countP_eq_zero.2 fun p hp => by simp [Standing.isRunning, hgone p hp]
  have hactive : v.crew.standings.countP Standing.isActive = 0 := by
    refine List.countP_eq_zero.2 fun p hp => ?_
    have hretired : p.retired = true :=
      (h.sound p hp).resolve_left (by rw [hgone p hp]; exact Exit.noConfusion)
    simp [Standing.isActive, hgone p hp, hretired]
  exact ⟨by rw [h.balanced.running, hrunning, Nat.zero_add],
    by rw [h.balanced.active, hactive, Nat.zero_add]⟩

/-- Nobody is counted in when no new user is being counted in. -/
theorem to_eq_zero (h : v.countsIn = false) :
    v.crew.task.toActive = 0 ∧ v.crew.task.toRunning = 0 ∧ v.crew.task.toSpawned = 0 ∧
      v.crew.task.toPeak = 0 := by
  rw [countsIn] at h
  cases htask : v.crew.task with
  | addsActive | addsRunning | raisesPeak | addsSpawned =>
    rw [htask] at h
    cases h
  | _ => exact ⟨rfl, rfl, rfl, rfl⟩

/-- **The gauge is right under any turnover.**  Whatever is done in whatever order:

* a counter that is lowered is not zero, and no counter is lowered but for a user;
* a user is taken out of the active ones once, by whoever sets its flag, and out of the running ones
  once, by its own thread;
* when no new user is being counted in, as many users are counted or were taken out as were begun to
  be started, the counter of started users says how many these are, and the peak is the greatest
  count of running users that there has been;
* when the threads of all users have exited, the counts are those of the users that someone is in
  the middle of counting, and zero if nobody is. -/
theorem gauge_accounted (choices : List Choice) :
    let v := start.run choices
    (∀ choice user, v.lowers choice = some (.active user) →
      0 < v.crew.gauge.active ∧ (v.next choice).crew.gauge = v.crew.gauge.dropActive) ∧
    (∀ choice user, v.lowers choice = some (.running user) →
      0 < v.crew.gauge.running ∧ (v.next choice).crew.gauge = v.crew.gauge.dropRunning) ∧
    (∀ choice, v.lowers choice = none →
      v.crew.gauge.active ≤ (v.next choice).crew.gauge.active ∧
      v.crew.gauge.running ≤ (v.next choice).crew.gauge.running) ∧
    (∀ i, v.CountedOnce i) ∧
    (v.countsIn = false →
      v.crew.gauge.active + v.lowered.countP Lowering.isActive = v.enrolled ∧
      v.crew.gauge.running + v.lowered.countP Lowering.isRunning = v.enrolled ∧
      v.crew.gauge.spawned = v.enrolled ∧
      v.crew.gauge.peak ∈ v.readings ∧ ∀ n ∈ v.readings, n ≤ v.crew.gauge.peak) ∧
    ((∀ i < v.crew.nextIndex, v.crew.isExited i) →
      v.crew.gauge.running = v.crew.task.running ∧
      v.crew.gauge.active = v.crew.task.active + v.telling.length ∧
      (v.isQuiet → v.crew.gauge.active = 0 ∧ v.crew.gauge.running = 0)) := by
  intro v
  have h : v.Accounts := accounts_start.run choices
  refine ⟨fun choice user hl => ?_, fun choice user hl => ?_, fun choice hl => ?_, h.countedOnce,
    fun hin => ?_, fun hexited => ?_⟩
  · have ht := turns h.isEntry choice
    rw [hl] at ht
    have hdrops := h.balanced.drops_active ht
    exact hdrops
  · have ht := turns h.isEntry choice
    rw [hl] at ht
    have hdrops := h.balanced.drops_running ht
    exact hdrops
  · have ht := turns h.isEntry choice
    rw [hl] at ht
    exact ht.le
  · obtain ⟨htoActive, htoRunning, htoSpawned, htoPeak⟩ := to_eq_zero hin
    obtain ⟨hactive, hrunning, hspawned⟩ := h.conserved
    obtain ⟨hmem, hle, -⟩ := h.peaks
    rw [htoActive] at hactive
    rw [htoRunning] at hrunning
    rw [htoSpawned] at hspawned
    rw [htoPeak, Nat.max_zero] at hmem hle
    exact ⟨hactive, hrunning, hspawned, hmem, hle⟩
  · obtain ⟨hrunning, hactive⟩ := h.of_exited hexited
    refine ⟨hrunning, hactive, fun hquiet => ?_⟩
    -- When nobody is in the middle of anything, the remainders are zero.
    obtain ⟨hidle, htelling⟩ := Bool.and_eq_true_iff.1 hquiet
    rw [Crew.task_of_isIdle hidle, List.isEmpty_iff.1 htelling] at hactive
    rw [Crew.task_of_isIdle hidle] at hrunning
    exact ⟨hactive, hrunning⟩

/-- Two users are started and leave.  The second one is told to retire by someone who is late to
count it as no longer active. -/
def overtaken : List Choice :=
  .enrol (.new 0 (.seeded 0 "checkout" 0)) :: .replicate 5 .work ++
    .enrol (.new 1 (.seeded 0 "checkout" 1)) :: .replicate 5 .work ++
    .tell 1 :: .replicate 4 (.leave 0) ++ .replicate 3 (.leave 1)

/-- When everyone has exited, somebody may still be counted as active. -/
theorem active_after_exits :
    ¬∀ choices : List Choice, let v := start.run choices
      v.crew.isIdle → (∀ i < v.crew.nextIndex, v.crew.isExited i) →
        v.crew.gauge.active = 0 ∧ v.crew.gauge.running = 0 := by
  intro h
  have hzero := (h overtaken (by decide +kernel) (by decide +kernel)).1
  have hone : (start.run overtaken).crew.gauge.active = 1 := by decide +kernel
  cases hone.symm.trans hzero

/-- When both threads have exited, a user is active until it is counted by the one who is late. -/
theorem gauge_accounted_overtaken :
    let v := start.run overtaken
    let last := start.run (overtaken ++ [.count 0])
    (∀ i < 2, v.crew.isExited i) ∧ v.crew.gauge.active = v.telling.length ∧ v.telling = [1] ∧
      v.lowers (.count 0) = some (.active (some 1)) ∧ 0 < v.crew.gauge.active ∧
      last.isQuiet ∧ last.crew.gauge.active = 0 ∧ last.crew.gauge.running = 0 ∧
      last.crew.gauge.peak ∈ last.readings ∧ last.crew.gauge.spawned = 2 := by
  intro v last
  have hlowers : v.lowers (.count 0) = some (.active (some 1)) := by decide +kernel
  have hexited : ∀ i < 2, v.crew.isExited i := by decide +kernel
  have hexitedLast : ∀ i < 2, last.crew.isExited i := by decide +kernel
  have hquiet : last.isQuiet := by decide +kernel
  obtain ⟨hactive, -, -, -, -, hgone⟩ := gauge_accounted overtaken
  obtain ⟨-, -, -, -, hcounts, hgoneLast⟩ := gauge_accounted (overtaken ++ [.count 0])
  obtain ⟨-, -, hspawned, hpeak, -⟩ := hcounts (by decide +kernel)
  obtain ⟨hzeroActive, hzeroRunning⟩ := (hgoneLast hexitedLast).2.2 hquiet
  exact ⟨hexited, (hgone hexited).2.1.trans (Nat.zero_add _), by decide +kernel, hlowers,
    (hactive _ _ hlowers).1, hquiet, hzeroActive, hzeroRunning, hpeak,
    hspawned.trans (by decide +kernel)⟩

end Turnover

end LoadReplay
