import LoadReplay.Proofs.Scene
import Mathlib.Data.List.Perm.Subperm

/-!
# Crews that follow a target

While a crew is brought to a target, a user is counted as running only if fewer users than the
target are (`Crew.ScalesTo`), however long the users stay that are told to retire: their threads
only count down.  And no user that is not told to retire is lost from sight: all of them are in the
pool of live users (`Crew.Covered`).
-/

namespace LoadReplay

namespace Crew

/-- Whether a user was started and is not told to retire. -/
def IsKept (c : Crew) (i : Nat) : Prop := ∃ p, c.standings[i]? = some p ∧ p.retired = false

/-- How many users are active: started, not told to retire, and not gone. -/
def working (c : Crew) : Nat :=
  c.standings.countP fun p => !p.retired && p.exit != .exited

/-- The users among whom the controller looks for live ones. -/
def pool (c : Crew) : List Nat :=
  match c.task with
  | .inspects .live unseen _ left => unseen ++ left
  | _ => c.live

/-- All users that are not told to retire are in the pool. -/
def Covered (c : Crew) : Prop := ∀ i, c.IsKept i → i ∈ c.pool

/-- What a crew may be in the middle of while it is brought to a target: if a user is about to be
counted as running, fewer users than the target are. -/
def ScalesTo (target : Nat) (c : Crew) : Prop :=
  match c.task with
  | .addsActive _ | .addsRunning _ => c.gauge.running < target
  | .raisesPeak _ running => running ≤ target ∧ c.gauge.running ≤ target
  | .addsSpawned _ | .launches _ => c.gauge.running ≤ target
  | _ => True

/-- Whether a user is being started. -/
def IsStarting (c : Crew) : Prop :=
  match c.task with
  | .addsActive _ | .addsRunning _ | .raisesPeak _ _ | .addsSpawned _ | .launches _ => True
  | _ => False

/-- At most as many users are active as there are among the live ones. -/
theorem working_le {c : Crew} (h : c.Covered) : c.working ≤ c.pool.length := by
  let active := c.standings.findIdxs fun p => !p.retired && p.exit != .exited
  have hsub : active ⊆ c.pool := by
    intro i hi
    obtain ⟨hlt, hp⟩ := List.mem_findIdxs_iff_exists_getElem_pos.1 hi
    simp only [Bool.and_eq_true, Bool.not_eq_true'] at hp
    exact h i ⟨_, List.getElem?_eq_getElem hlt, hp.1⟩
  have hlen := (List.subperm_of_subset List.nodup_findIdxs hsub).length_le
  rwa [List.length_findIdxs] at hlen

/-- Whether a user is kept can be told from the standings. -/
theorem isKept_congr {c c' : Crew} (h : c'.standings = c.standings) {i : Nat} :
    c'.IsKept i ↔ c.IsKept i := by
  rw [IsKept, IsKept, h]

/-- Whoever is told to retire is kept no longer, and the others are as before. -/
theorem isKept_tell {c : Crew} {i j : Nat} (h : (c.tell i).IsKept j) : c.IsKept j ∧ j ≠ i := by
  obtain ⟨p, hp, hr⟩ := h
  rw [standings_tell, List.getElem?_modify] at hp
  obtain ⟨q, hq, rfl⟩ := Option.map_eq_some_iff.1 hp
  by_cases hij : i = j
  · rw [if_pos hij] at hr
    simp [Standing.tell] at hr
  · rw [if_neg hij] at hr
    exact ⟨⟨q, hq, hr⟩, Ne.symm hij⟩

/-- Going on its way out makes nobody kept. -/
theorem isKept_leave {c : Crew} {i j : Nat} (h : (c.leave i).IsKept j) : c.IsKept j := by
  obtain ⟨p, hp, hr⟩ := h
  rw [standings_leave, List.getElem?_modify] at hp
  obtain ⟨q, hq, rfl⟩ := Option.map_eq_some_iff.1 hp
  refine ⟨q, hq, ?_⟩
  by_cases hij : i = j
  · rw [if_pos hij] at hr
    obtain ⟨retired, exit⟩ := q
    cases exit <;> simp_all [Standing.leave]
  · rwa [if_neg hij] at hr

/-- Only the user that is started is kept newly. -/
theorem isKept_launch {c : Crew} {u : User} {j : Nat} (h : (c.launch u).IsKept j) :
    c.IsKept j ∨ j = c.nextIndex := by
  obtain ⟨p, hp, hr⟩ := h
  rw [standings_launch] at hp
  by_cases hj : j < c.standings.length
  · rw [List.getElem?_append_left hj] at hp
    exact .inl ⟨p, hp, hr⟩
  · have hlt := (List.getElem?_eq_some_iff.1 hp).1
    rw [List.length_append, List.length_singleton] at hlt
    rw [length_standings] at hj hlt
    exact .inr (by rw [nextIndex]; omega)

/-- Whoever has exited is kept no longer, as its flag was set before. -/
theorem not_isKept_of_isExited {c : Crew} {i : Nat} (hs : ∀ p ∈ c.standings, p.Sound)
    (h : c.isExited i) : ¬c.IsKept i := by
  rintro ⟨p, hp, hr⟩
  obtain ⟨q, hq, hexit⟩ := isExited_iff.1 h
  rw [hp, Option.some.injEq] at hq
  subst hq
  rcases hs p (List.mem_of_getElem? hp) with hstay | hret
  · rw [hexit] at hstay
    cases hstay
  · rw [hr] at hret
    cases hret

/-! ## What the steps of a crew keep -/

/-- Whether all who are kept are among the live ones depends only on the standings and on these. -/
theorem Covered.congr {c c' : Crew} (h : c.Covered) (hs : c'.standings = c.standings)
    (hpool : c'.pool = c.pool) : c'.Covered := by
  intro i hi
  rw [hpool]
  exact h i ((isKept_congr hs).1 hi)

/-- Telling a user to retire takes nobody out of the live ones. -/
theorem mem_pool_tell {c : Crew} {i j : Nat} (h : j ∈ c.live) : j ∈ (c.tell i).pool := by
  rw [pool, tell]
  cases c.isRetired i <;> exact h

/-- Whoever is kept stays among the live ones when a thread goes on its way out. -/
theorem Covered.leave {c : Crew} (h : c.Covered) (i : Nat) : (c.leave i).Covered := by
  intro j hj
  have := h j (isKept_leave hj)
  rw [Crew.leave]
  cases c.threads[i]? <;> exact this

/-- The newest user is taken out of the live ones when it is told to retire, and it is kept no
longer. -/
theorem Covered.retireNewest {c : Crew} (h : c.Covered) (hidle : c.task = .none) :
    c.retireNewest.Covered := by
  rcases c.retireNewest_cases with hr | ⟨front, i, hfront, hr⟩ <;> rw [hr]
  · exact h
  · intro j hj
    obtain ⟨hkept, hne⟩ := isKept_tell hj
    have hlive : j ∈ c.live := by
      have := h j hkept
      rwa [pool, hidle] at this
    rw [hfront] at hlive
    have hmem : j ∈ front :=
      (List.mem_append.1 hlive).resolve_right fun hi => hne (List.mem_singleton.1 hi)
    exact mem_pool_tell hmem

/-- The pool loses only users that have exited, and gets the new one. -/
theorem Covered.work {c c' : Crew} {o : Outcome} (h : c.Covered) (hs : ∀ p ∈ c.standings, p.Sound)
    (hw : c.Works c' o) : c'.Covered := by
  -- Who is kept stands in the pool; a walk through the live users only moves them about in it.
  cases hw with
  | idle => exact h
  | launches u ht =>
    intro i hi
    rcases isKept_launch hi with hi | rfl
    · have := h i hi
      rw [pool, ht] at this
      exact List.mem_append_left _ this
    · exact List.mem_append_right _ (List.mem_singleton_self _)
  | seesGone roll i unseen gone left ht hx =>
    cases roll with
    | live =>
      intro j hj
      -- Who has exited is dropped from the pool, and is not kept.
      have hne : j ≠ i := fun hji => not_isKept_of_isExited hs (hji ▸ hx) hj
      have := h j hj
      rw [pool, ht] at this
      exact (List.mem_cons.1 this).resolve_left hne
    | draining => exact h.congr rfl (by rw [pool, pool, ht])
  | seesLeft roll i unseen gone left ht =>
    cases roll with
    | live =>
      intro j hj
      have := h j hj
      rw [pool, ht] at this
      show j ∈ unseen ++ (left ++ [i])
      simp only [List.cons_append, List.mem_cons, List.mem_append] at this ⊢
      tauto
    | draining => exact h.congr rfl (by rw [pool, pool, ht])
  | parts roll gone left ht => cases roll <;> exact h.congr rfl (by rw [pool, pool, ht]; rfl)
  | joins roll i gone c' ht hj =>
    obtain ⟨_, _, rfl⟩ := Option.map_eq_some_iff.1 hj
    exact h.congr rfl (by rw [pool, pool, ht])
  | addsActive _ ht | addsRunning _ ht | raisesPeak _ _ ht | addsSpawned _ ht | dropsNewActive ht
  | dropsNewRunning ht | dropsActive ht | breaks _ _ _ ht | turns ht | ends ht =>
    exact h.congr rfl (by rw [pool, pool, ht])

/-- A crew that is brought to a target counts one more user as running only if fewer than the target
are. -/
theorem ScalesTo.work {c c' : Crew} {o : Outcome} {target : Nat} (h : c.ScalesTo target)
    (hw : c.Works c' o) : c'.ScalesTo target ∧
      c'.gauge.running ≤ max c.gauge.running target ∧ c'.gauge.peak ≤ max c.gauge.peak target := by
  have hr : c.gauge.running ≤ max c.gauge.running target := Nat.le_max_left _ _
  have hp : c.gauge.peak ≤ max c.gauge.peak target := Nat.le_max_left _ _
  cases hw with
  | idle => exact ⟨h, hr, hp⟩
  | addsActive u ht =>
    rw [ScalesTo, ht] at h
    exact ⟨h, hr, hp⟩
  | addsRunning u ht =>
    rw [ScalesTo, ht] at h
    exact ⟨⟨h, h⟩, Nat.le_trans h (Nat.le_max_right _ _), hp⟩
  | raisesPeak u running ht =>
    rw [ScalesTo, ht] at h
    exact ⟨h.2, hr, Nat.max_le.2 ⟨hp, Nat.le_trans h.1 (Nat.le_max_right _ _)⟩⟩
  | addsSpawned u ht =>
    rw [ScalesTo, ht] at h
    exact ⟨h, hr, hp⟩
  | launches | dropsNewActive | seesGone | seesLeft | breaks | turns | ends | dropsActive =>
    exact ⟨trivial, hr, hp⟩
  | dropsNewRunning => exact ⟨trivial, Nat.le_trans (Nat.sub_le _ _) hr, hp⟩
  | parts roll => cases roll <;> exact ⟨trivial, hr, hp⟩
  | joins roll i gone c' ht hj =>
    obtain ⟨_, _, rfl⟩ := Option.map_eq_some_iff.1 hj
    exact ⟨trivial, hr, hp⟩

/-- A crew that does not start a user does not begin to, and counts no more users. -/
theorem work_of_not_isStarting {c c' : Crew} {o : Outcome} (h : ¬c.IsStarting)
    (hw : c.Works c' o) : ¬c'.IsStarting ∧
      c'.gauge.running ≤ c.gauge.running ∧ c'.gauge.peak ≤ c.gauge.peak := by
  have hr := Nat.le_refl c.gauge.running
  have hp := Nat.le_refl c.gauge.peak
  cases hw with
  | idle => exact ⟨h, hr, hp⟩
  | addsActive _ ht | addsRunning _ ht | raisesPeak _ _ ht | addsSpawned _ ht | launches _ ht =>
    rw [IsStarting, ht] at h
    exact absurd trivial h
  | dropsNewActive | seesGone | seesLeft | breaks | turns | ends | dropsActive =>
    exact ⟨id, hr, hp⟩
  | dropsNewRunning => exact ⟨id, Nat.sub_le _ _, hp⟩
  | parts roll => cases roll <;> exact ⟨id, hr, hp⟩
  | joins roll i gone c' ht hj =>
    obtain ⟨_, _, rfl⟩ := Option.map_eq_some_iff.1 hj
    exact ⟨id, hr, hp⟩

/-- A thread on its way out counts users down only. -/
theorem gauge_leave_le (c : Crew) (i : Nat) :
    (c.leave i).gauge.running ≤ c.gauge.running ∧ (c.leave i).gauge.peak = c.gauge.peak := by
  rcases c.leave_cases i with ⟨-, h⟩ | ⟨t, -, h⟩ <;> rw [h]
  · exact ⟨Nat.le_refl _, rfl⟩
  · show (t.exit.count c.gauge).running ≤ _ ∧ (t.exit.count c.gauge).peak = _
    cases t.exit with
    | dropsRunning => exact ⟨Nat.sub_le _ _, rfl⟩
    | _ => exact ⟨Nat.le_refl _, rfl⟩

/-- A thread on its way out makes no fewer users missing. -/
theorem ScalesTo.leave {c : Crew} {target : Nat} (h : c.ScalesTo target) (i : Nat) :
    (c.leave i).ScalesTo target := by
  have hle := (c.gauge_leave_le i).1
  rw [ScalesTo] at h ⊢
  rw [(c.task_leave i).1]
  match ht : c.task with
  | .addsActive _ | .addsRunning _ =>
    rw [ht] at h
    exact Nat.lt_of_le_of_lt hle h
  | .raisesPeak _ _ =>
    rw [ht] at h
    exact ⟨h.1, Nat.le_trans hle h.2⟩
  | .addsSpawned _ | .launches _ =>
    rw [ht] at h
    exact Nat.le_trans hle h
  | .none | .dropsNewActive | .dropsNewRunning | .dropsActive | .inspects _ _ _ _ | .joins _ _ =>
    trivial

/-- A crew in the middle of nothing starts nobody. -/
theorem not_isStarting_of_idle {c : Crew} (h : c.task = .none) : ¬c.IsStarting := by
  rw [IsStarting, h]
  exact id

/-- Nor does one that has just told a user to retire. -/
theorem not_isStarting_tell (c : Crew) (i : Nat) : ¬(c.tell i).IsStarting := by
  rw [IsStarting, tell]
  cases c.isRetired i <;> exact id

/-- Right after a user was told to retire nobody is being started. -/
theorem scalesTo_tell (c : Crew) (target i : Nat) : (c.tell i).ScalesTo target := by
  rw [ScalesTo, tell]
  cases c.isRetired i <;> trivial

/-- So it is when that was the newest one. -/
theorem scalesTo_retireNewest {c : Crew} (target : Nat) (h : c.task = .none) :
    c.retireNewest.ScalesTo target := by
  rcases c.retireNewest_cases with hr | ⟨front, i, -, hr⟩ <;> rw [hr]
  · rw [ScalesTo, h]
    trivial
  · exact scalesTo_tell _ target i

/-- To begin looking for users that are gone takes nobody out of the live ones. -/
theorem Covered.reap {c : Crew} (h : c.Covered) (hidle : c.task = .none) : c.reap.Covered :=
  h.congr rfl (by rw [pool, pool, hidle]; exact List.append_nil _)

/-- Only one step counts a user as running. -/
theorem Works.of_running_lt {c c' : Crew} {o : Outcome} (hw : c.Works c' o)
    (h : c.gauge.running < c'.gauge.running) : ∃ u, c.task = .addsRunning u := by
  cases hw with
  | addsRunning u ht => exact ⟨u, ht⟩
  | dropsNewRunning => exact absurd h (Nat.not_lt.2 (Nat.sub_le _ _))
  | parts roll => cases roll <;> exact absurd h (Nat.lt_irrefl _)
  | joins _ _ _ _ _ hj =>
    obtain ⟨_, _, rfl⟩ := Option.map_eq_some_iff.1 hj
    exact absurd h (Nat.lt_irrefl _)
  | _ => exact absurd h (Nat.lt_irrefl _)

/-- Only one step starts a thread. -/
theorem Works.of_length_lt {c c' : Crew} {o : Outcome} (hw : c.Works c' o)
    (h : c.standings.length < c'.standings.length) : ∃ u, c.task = .launches u := by
  cases hw with
  | launches u ht => exact ⟨u, ht⟩
  | parts roll => cases roll <;> exact absurd h (Nat.lt_irrefl _)
  | joins _ _ _ _ _ hj =>
    obtain ⟨_, _, rfl⟩ := Option.map_eq_some_iff.1 hj
    exact absurd h (Nat.lt_irrefl _)
  | _ => exact absurd h (Nat.lt_irrefl _)

end Crew

end LoadReplay
