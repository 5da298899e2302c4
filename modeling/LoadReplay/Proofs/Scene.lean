import LoadReplay.Proofs.Rules
import LoadReplay.Run.Scene
import Mathlib.Data.List.Basic

/-!
# Steps of a scene

What a step of a scene changes, as far as the crew goes.  The proofs about crews do not look at what
virtual users do but only at their `Standing`: whether they are told to retire, and how far their
threads are on their way out.  The steps of virtual users leave everything about the crew as it is
but the users themselves (`Scene.next_turn`).
-/

namespace LoadReplay

/-! ## Standings -/

/-- Where a virtual user stands with its crew. -/
structure Standing where
  retired : Bool
  exit : Exit
  deriving DecidableEq

/-- Where the user of a thread stands. -/
def Thread.standing (t : Thread) : Standing := ⟨t.retired, t.exit⟩

namespace Standing

/-- The standing of a user that has got its thread. -/
def fresh : Standing := ⟨false, .staying⟩

/-- The standing after the user is told to retire. -/
def tell (p : Standing) : Standing := { p with retired := true }

/-- The standing after one step of the thread on its way out. -/
def leave (p : Standing) : Standing :=
  match p.exit with
  | .staying => ⟨true, if p.retired then .dropsRunning else .dropsActive⟩
  | .dropsActive => ⟨p.retired, .dropsRunning⟩
  | .dropsRunning => ⟨p.retired, .closing⟩
  | .closing | .exited => ⟨p.retired, .exited⟩

end Standing

/-- A thread on its way out is seen from outside as a standing on its way out. -/
theorem Thread.standing_leave (t : Thread) : t.leave.standing = t.standing.leave := by
  obtain ⟨user, retired, exit⟩ := t
  cases exit <;> rfl

/-- On its way out a thread does nothing to its user. -/
theorem Thread.user_leave (t : Thread) : t.leave.user = t.user := by
  obtain ⟨user, retired, exit⟩ := t
  cases exit <;> rfl

namespace Crew

/-- Where all users stand, by their indices. -/
def standings (c : Crew) : List Standing := c.threads.map (·.standing)

@[simp] theorem length_standings (c : Crew) : c.standings.length = c.threads.length :=
  List.length_map _

/-- Whether a user has exited can be told from the standings alone. -/
theorem isExited_eq (c : Crew) (i : Nat) :
    c.isExited i = c.standings[i]?.any (·.exit == .exited) := by
  rw [isExited, standings, List.getElem?_map, Option.any_map]
  rfl

/-- A user has exited exactly if it has a standing that says so. -/
theorem isExited_iff {c : Crew} {i : Nat} :
    c.isExited i ↔ ∃ p, c.standings[i]? = some p ∧ p.exit = .exited := by
  rw [isExited_eq]
  cases c.standings[i]? <;> simp

/-- So can whether it was told to retire. -/
theorem isRetired_eq (c : Crew) (i : Nat) : c.isRetired i = c.standings[i]?.any (·.retired) := by
  rw [isRetired, standings, List.getElem?_map, Option.any_map]
  rfl

/-- What changes one thread changes one standing, if it looks the same from outside. -/
theorem standings_modify (c : Crew) (i : Nat) {f : Thread → Thread} {g : Standing → Standing}
    (h : ∀ t, (f t).standing = g t.standing) :
    (c.modify i f).standings = c.standings.modify i g := by
  refine List.ext_getElem? fun j => ?_
  simp only [standings, modify, List.getElem?_map, List.getElem?_modify]
  cases c.threads[j]? with
  | none => rfl
  | some t =>
    by_cases hij : i = j
    · simp [hij, h]
    · simp [hij]

/-- Only the user itself is different. -/
theorem standings_modify_user (c : Crew) (i : Nat) (f : User → User) :
    (c.modify i fun t => { t with user := f t.user }).standings = c.standings := by
  have h : ∀ t : Thread, ({ t with user := f t.user } : Thread).standing = id t.standing :=
    fun _ => rfl
  rw [c.standings_modify i h]
  exact List.modify_id _ _

/-- Telling a user to retire changes nothing but its own standing. -/
theorem standings_tell (c : Crew) (i : Nat) :
    (c.tell i).standings = c.standings.modify i Standing.tell :=
  c.standings_modify i fun _ => rfl

/-- A thread on its way out counts its user down, where it stands. -/
theorem leave_cases (c : Crew) (i : Nat) :
    c.threads[i]? = none ∧ c.leave i = c ∨
      ∃ t, c.threads[i]? = some t ∧
        c.leave i = { c.modify i (·.leave) with gauge := t.exit.count c.gauge } := by
  rw [leave]
  cases c.threads[i]? with
  | none => exact .inl ⟨rfl, rfl⟩
  | some t => exact .inr ⟨t, rfl, rfl⟩

/-- A step on its way out is a step of that thread alone. -/
theorem threads_leave (c : Crew) (i : Nat) :
    (c.leave i).threads = c.threads.modify i (·.leave) := by
  rcases c.leave_cases i with ⟨hnone, h⟩ | ⟨t, -, h⟩ <;> rw [h]
  · rw [List.modify_eq_self (List.getElem?_eq_none_iff.1 hnone)]
  · rfl

/-- Nobody is started or lost when a thread goes on its way out. -/
theorem length_leave (c : Crew) (i : Nat) : (c.leave i).threads.length = c.threads.length := by
  rw [threads_leave, List.length_modify]

/-- A thread's own way out changes nothing but its own standing. -/
theorem standings_leave (c : Crew) (i : Nat) :
    (c.leave i).standings = c.standings.modify i Standing.leave := by
  have h := c.standings_modify i Thread.standing_leave
  rwa [standings, modify, ← threads_leave] at h

/-- The users are the same as before, and so are the threads of the others. -/
theorem thread_leave {c : Crew} {i j : Nat} {t' : Thread} :
    (c.leave i).threads[j]? = some t' ↔
      ∃ t, c.threads[j]? = some t ∧ t' = if i = j then t.leave else t := by
  rw [threads_leave, List.getElem?_modify]
  cases c.threads[j]? <;> simp [eq_comm]

/-- What the controller is in the middle of, and whom it holds, does not depend on threads on their
way out. -/
theorem task_leave (c : Crew) (i : Nat) :
    (c.leave i).task = c.task ∧ (c.leave i).live = c.live ∧ (c.leave i).draining = c.draining := by
  rcases c.leave_cases i with ⟨-, h⟩ | ⟨t, -, h⟩ <;> rw [h] <;> exact ⟨rfl, rfl, rfl⟩

/-- A user that is started stands last, and nobody has done anything to it. -/
theorem standings_launch (c : Crew) (u : User) :
    (c.launch u).standings = c.standings ++ [.fresh] :=
  List.map_append

end Crew

/-- A thread cannot be started only when it is about to be. -/
theorem Crew.refuse_cases (c : Crew) :
    c.refuse = c ∨ ∃ u, c.task = .launches u ∧ c.refuse = { c with task := .dropsNewActive } := by
  rw [refuse]
  split
  · rename_i u h
    exact .inr ⟨u, h, rfl⟩
  · exact .inl rfl

/-- A thread that cannot be started leaves all others as they are. -/
theorem Crew.standings_refuse (c : Crew) : c.refuse.standings = c.standings := by
  rcases c.refuse_cases with h | ⟨u, _, h⟩ <;> rw [h]
  rfl

/-! ## What a controller does to its crew -/

namespace Standing

/-- Whoever is on the way out counts as told to retire. -/
def Sound (p : Standing) : Prop := p.exit = .staying ∨ p.retired = true

/-- A user that was just started is sound: it is staying. -/
theorem sound_fresh : fresh.Sound := .inl rfl

/-- A user that was told to retire is sound, whatever it does. -/
theorem sound_tell (p : Standing) : p.tell.Sound := .inr rfl

/-- A thread that leaves by itself sets its flag before anything else, so it stays sound. -/
theorem Sound.leave {p : Standing} (h : p.Sound) : p.leave.Sound := by
  obtain ⟨retired, exit⟩ := p
  cases exit <;> simp_all [Sound, Standing.leave]

end Standing

/-- A step of the controller tells one user to retire, or starts the thread of one, or does nothing
to the threads. -/
inductive Crew.Change (c c' : Crew) : Prop where
  | same (h : c'.threads = c.threads)
  | tell (i : Nat) (h : c'.threads = (c.tell i).threads)
  | launch (u : User) (ht : c.task = .launches u) (h : c'.threads = (c.launch u).threads)

namespace Crew

/-- The standings are those of the threads. -/
theorem standings_congr {c c' : Crew} (h : c'.threads = c.threads) :
    c'.standings = c.standings := by
  rw [standings, h, standings]

/-- What a change does to the standings. -/
theorem Change.standings {c c' : Crew} (h : c.Change c') :
    c'.standings = c.standings ∨ (∃ i, c'.standings = c.standings.modify i .tell) ∨
      c'.standings = c.standings ++ [.fresh] := by
  cases h with
  | same h => exact .inl (standings_congr h)
  | tell i h => exact .inr (.inl ⟨i, (standings_congr h).trans (c.standings_tell i)⟩)
  | launch u _ h => exact .inr (.inr ((standings_congr h).trans (c.standings_launch u)))

/-- What holds of all standings still does when one of them is changed into another that it holds
of. -/
private theorem forall_modify {P : Standing → Prop} {l : List Standing} {i : Nat}
    {f : Standing → Standing} (h : ∀ p ∈ l, P p) (hf : ∀ p, P p → P (f p)) :
    ∀ p ∈ l.modify i f, P p := by
  intro p hp
  obtain ⟨j, hj⟩ := List.mem_iff_getElem?.1 hp
  rw [List.getElem?_modify] at hj
  obtain ⟨q, hq, rfl⟩ := Option.map_eq_some_iff.1 hj
  have := h q (List.mem_of_getElem? hq)
  split
  · exact hf q this
  · exact this

/-- No step of the controller lets anyone be on the way out who does not count as told to retire. -/
theorem Change.sound {c c' : Crew} (h : c.Change c') (hs : ∀ p ∈ c.standings, p.Sound) :
    ∀ p ∈ c'.standings, p.Sound := by
  rcases h.standings with hsame | ⟨i, htold⟩ | hnew
  · rwa [hsame]
  · rw [htold]
    exact forall_modify hs fun p _ => p.sound_tell
  · intro p hp
    rw [hnew] at hp
    rcases List.mem_append.1 hp with hp | hp
    · exact hs p hp
    · rw [List.mem_singleton.1 hp]
      exact Standing.sound_fresh

/-- All standings stay sound when a thread goes on its way out. -/
theorem sound_leave {c : Crew} (hs : ∀ p ∈ c.standings, p.Sound) (i : Nat) :
    ∀ p ∈ (c.leave i).standings, p.Sound := by
  rw [standings_leave]
  exact forall_modify hs fun _ => Standing.Sound.leave

/-- The users that were there are the same as before. -/
theorem Change.user {c c' : Crew} (h : c.Change c') {i : Nat} {t : Thread}
    (ht : c.threads[i]? = some t) : ∃ t', c'.threads[i]? = some t' ∧ t'.user = t.user := by
  cases h with
  | same h => exact ⟨t, by rw [h, ht], rfl⟩
  | tell j h =>
    rw [h, Crew.tell, modify, List.getElem?_modify, ht]
    refine ⟨_, rfl, ?_⟩
    show (if j = i then _ else t).user = t.user
    split <;> rfl
  | launch u _ h =>
    rw [h, Crew.launch, List.getElem?_append_left (List.getElem?_eq_some_iff.1 ht).1]
    exact ⟨t, ht, rfl⟩

/-- A thread was there before, perhaps with its user not told to retire, or it is the new one. -/
theorem Change.thread {c c' : Crew} (h : c.Change c') {i : Nat} {t' : Thread}
    (ht' : c'.threads[i]? = some t') :
    (∃ t, c.threads[i]? = some t ∧ t'.user = t.user ∧ t'.exit = t.exit) ∨
      ∃ u, c.task = .launches u ∧ i = c.threads.length ∧
        t' = { user := u, retired := false, exit := .staying } := by
  cases h with
  | same h =>
    rw [h] at ht'
    exact .inl ⟨t', ht', rfl, rfl⟩
  | tell j h =>
    rw [h, Crew.tell, modify, List.getElem?_modify] at ht'
    obtain ⟨t, ht, rfl⟩ := Option.map_eq_some_iff.1 ht'
    refine .inl ⟨t, ht, ?_⟩
    split <;> exact ⟨rfl, rfl⟩
  | launch u htask h =>
    rw [h, Crew.launch, List.getElem?_append] at ht'
    split at ht'
    · exact .inl ⟨t', ht', rfl, rfl⟩
    · rename_i hlt
      have hzero : i - c.threads.length = 0 := by
        have := (List.getElem?_eq_some_iff.1 ht').1
        rw [List.length_singleton] at this
        omega
      rw [hzero, List.getElem?_cons_zero, Option.some.injEq] at ht'
      exact .inr ⟨u, htask, by omega, ht'.symm⟩

/-- No thread is lost. -/
theorem Change.length_le {c c' : Crew} (h : c.Change c') :
    c.threads.length ≤ c'.threads.length := by
  cases h with
  | same h => exact Nat.le_of_eq (by rw [h])
  | tell i h =>
    rw [h]
    exact Nat.le_of_eq (List.length_modify _ _ _).symm
  | launch u _ h =>
    rw [h, Crew.launch, List.length_append]
    exact Nat.le_add_right _ _

/-- Joining a user leaves the threads as they are. -/
theorem threads_join? {c c' : Crew} {i : Nat} (h : c.join? i = some c') :
    c'.threads = c.threads := by
  obtain ⟨_, _, rfl⟩ := Option.map_eq_some_iff.1 h
  rfl

/-- Joining a user leaves the counters as they are. -/
theorem gauge_join? {c c' : Crew} {i : Nat} (h : c.join? i = some c') :
    c'.gauge = c.gauge := by
  obtain ⟨_, _, rfl⟩ := Option.map_eq_some_iff.1 h
  rfl

/-- A step of what a crew is in the middle of is one of the changes that controllers make to crews.
-/
theorem Works.change {c c' : Crew} {o : Outcome} (h : c.Works c' o) : c.Change c' := by
  cases h with
  | launches u ht => exact .launch u ht rfl
  | parts roll => cases roll <;> exact .same rfl
  | joins roll i gone c' _ hj => exact .same (show c'.threads = _ from threads_join? hj)
  | _ => exact .same rfl

/-- The newest user is told to retire, if there is one. -/
theorem retireNewest_cases (c : Crew) :
    c.retireNewest = c ∨ ∃ front i, c.live = front ++ [i] ∧
      c.retireNewest =
        ({ c with live := front, draining := c.draining ++ [i] } : Crew).tell i := by
  rw [retireNewest]
  cases hl : c.live.getLast? with
  | none => exact .inl rfl
  | some i =>
    obtain ⟨front, hfront⟩ := List.getLast?_eq_some_iff.1 hl
    refine .inr ⟨front, i, hfront, ?_⟩
    simp only [hfront, List.dropLast_concat]

/-- To retire the newest user is to tell it, if there is one. -/
theorem threads_retireNewest (c : Crew) :
    c.retireNewest.threads = c.threads ∨ ∃ i, c.retireNewest.threads = (c.tell i).threads := by
  rcases c.retireNewest_cases with h | ⟨front, i, -, h⟩ <;> rw [h]
  · exact .inl rfl
  · exact .inr ⟨i, rfl⟩

/-- The counter is lowered only in a step of its own, after the flag was set. -/
theorem gauge_retireNewest (c : Crew) : c.retireNewest.gauge = c.gauge := by
  rcases c.retireNewest_cases with h | ⟨front, i, -, h⟩ <;> rw [h]
  rfl

end Crew

namespace Controller

variable {w : Waiting} {now : Span} {c c' : Controller} {e : Effect}

/-- A controller whose crew is idle may begin to start a user, but it starts no thread. -/
theorem Acts.threads (h : c.Acts w now c' e) :
    c'.crew.threads = c.crew.threads ∨ ∃ i, c'.crew.threads = (c.crew.tell i).threads := by
  cases h with
  | retires => exact c.crew.threads_retireNewest
  | tells i => exact .inr ⟨i, rfl⟩
  | joins _ _ _ crew _ _ hj => exact .inl (Crew.threads_join? hj)
  | joinedAll last => cases last <;> exact .inl rfl
  | breaks _ _ last => cases last <;> exact .inl rfl
  | _ => exact .inl rfl

/-- Nobody is started while the crew is in the middle of nothing. -/
theorem Acts.threads_length (h : c.Acts w now c' e) :
    c'.crew.threads.length = c.crew.threads.length := by
  rcases h.threads with hs | ⟨i, hs⟩ <;> rw [hs]
  exact List.length_modify _ _ _

/-- Only a crew that is not idle changes its gauge. -/
theorem Acts.gauge (h : c.Acts w now c' e) : c'.crew.gauge = c.crew.gauge := by
  cases h with
  | retires => exact c.crew.gauge_retireNewest
  | joins _ _ _ crew _ _ hj => exact Crew.gauge_join? hj
  | joinedAll last => cases last <;> rfl
  | breaks _ _ last => cases last <;> rfl
  | _ => rfl

/-- A controller stays with its scenario. -/
theorem Acts.post (h : c.Acts w now c' e) : c'.post = c.post := by
  cases h with
  | joinedAll last => cases last <;> rfl
  | breaks _ _ last => cases last <;> rfl
  | _ => rfl

/-- Each step of a controller makes one of the changes to its crew, or none. -/
theorem Steps.change (h : c.Steps w now c' e) : c.crew.Change c'.crew := by
  cases h with
  | acts _ ha =>
    rcases ha.threads with hs | ⟨i, hs⟩
    · exact .same hs
    · exact .tell i hs
  | works _ hw | started _ hw | joined _ _ hw | broken _ _ _ hw | refused _ hw => exact hw.change

/-- A controller keeps its post. -/
theorem Steps.post (h : c.Steps w now c' e) : c'.post = c.post := by
  cases h with
  | acts _ ha => exact ha.post
  | _ => rfl

/-- What is done after all joins does not tell whether one of them has failed. -/
theorem broken_joined (c : Controller) (last : Bool) : (c.joined last).broken = c.broken := by
  cases last <;> rfl

/-- A failure is not forgotten. -/
theorem Steps.broken_of_broken (hst : c.Steps w now c' e) (h : c.broken = true) :
    c'.broken = true := by
  cases hst with
  | acts _ ha =>
    cases ha with
    | joinedAll last => rw [broken_joined, h]
    | breaks _ _ last => rw [broken_joined]
    | _ => exact h
  | works | started | joined => exact h
  | broken | refused => rfl

end Controller

/-! ## What virtual users leave alone -/

namespace Scene

/-- Nothing about the crew and its controller has changed but the users themselves, and how many
iterations they may still claim. -/
structure UsersMoved (s s' : Scene) : Prop where
  standings : s'.crew.standings = s.crew.standings
  crew : s'.crew = { s.crew with threads := s'.crew.threads }
  controller : s'.controller =
    { s.controller with crew := s'.crew, budget := s'.controller.budget }
  log : s'.log = s.log ∨ ∃ i now effect, s'.log = s.log ++ [.user i now effect]
  /-- A user that has ended does nothing more. -/
  ends : ∀ (i : Nat) (t : Thread), s.crew.threads[i]? = some t → t.user.isOver →
    s'.crew.threads[i]? = some t

namespace UsersMoved

variable {s s' : Scene}

theorem refl (s : Scene) : s.UsersMoved s := ⟨rfl, rfl, rfl, .inl rfl, fun _ _ h _ => h⟩

theorem live (h : s.UsersMoved s') : s'.crew.live = s.crew.live := by rw [h.crew]

theorem draining (h : s.UsersMoved s') : s'.crew.draining = s.crew.draining := by rw [h.crew]

theorem gauge (h : s.UsersMoved s') : s'.crew.gauge = s.crew.gauge := by rw [h.crew]

theorem task (h : s.UsersMoved s') : s'.crew.task = s.crew.task := by rw [h.crew]

theorem length (h : s.UsersMoved s') : s'.crew.threads.length = s.crew.threads.length := by
  rw [← Crew.length_standings, h.standings, Crew.length_standings]

theorem phase (h : s.UsersMoved s') : s'.controller.phase = s.controller.phase := by
  rw [h.controller]

theorem post (h : s.UsersMoved s') : s'.controller.post = s.controller.post := by
  rw [h.controller]

theorem broken (h : s.UsersMoved s') : s'.controller.broken = s.controller.broken := by
  rw [h.controller]

end UsersMoved

variable (w : Waiting)

@[simp] theorem crew_modifyCrew (s : Scene) (f : Crew → Crew) :
    (s.modifyCrew f).crew = f s.crew := rfl

@[simp] theorem crew_stepController (s : Scene) (now : Span) :
    (s.stepController w now).crew = (s.controller.step w now s.aborted).1.crew := rfl

/-- Changing a user that has work left to do leaves everything else of the scene as it is. -/
theorem usersMoved_modifyUser (s : Scene) (i : Nat) {f : User → User}
    (hf : ∀ t, s.crew.threads[i]? = some t → t.user.isOver → f t.user = t.user) :
    s.UsersMoved (s.modifyUser i f) := by
  refine ⟨s.crew.standings_modify_user i f, rfl, rfl, .inl rfl, fun j t ht hover => ?_⟩
  show (s.crew.threads.modify i _)[j]? = _
  rw [List.getElem?_modify, ht]
  show some (if i = j then _ else t) = some t
  split
  · rename_i hij
    subst hij
    rw [hf t ht hover]
  · rfl

/-- A user that is asked to make a step is there and not over. -/
theorem user?_eq_some {s : Scene} {i : Nat} {t : Thread} (h : s.user? i = some t) :
    s.crew.threads[i]? = some t ∧ t.user.isOver = false := by
  obtain ⟨ht, hover⟩ := Option.filter_eq_some_iff.1 h
  exact ⟨ht, by simpa using hover⟩

/-- A user that is there and is not asked to make a step is over. -/
theorem isOver_of_user? {s : Scene} {i : Nat} {t : Thread} (hi : s.user? i = none)
    (ht : s.crew.threads[i]? = some t) : t.user.isOver = true := by
  rw [user?, ht] at hi
  simpa using hi

/-- A user that has not ended may be changed in any way. -/
theorem usersMoved_of_user? {s : Scene} {i : Nat} {t : Thread} (h : s.user? i = some t)
    (f : User → User) : s.UsersMoved (s.modifyUser i f) := by
  obtain ⟨ht, hover⟩ := user?_eq_some h
  refine usersMoved_modifyUser s i fun t' ht' hover' => ?_
  rw [ht, Option.some.injEq] at ht'
  rw [← ht', hover] at hover'
  cases hover'

/-- A user that is over does not take a reply. -/
theorem receive_of_isOver {u : User} (h : u.isOver) (r : Reply) : u.receive r = u := by
  obtain ⟨index, generator, iterations, phase⟩ := u
  cases phase with
  | ended | crashed => rfl
  | _ => cases h

/-- A step of a user changes that user, and perhaps the log, the recorder and the budget. -/
theorem usersMoved_stepUser {s : Scene} {i : Nat} {t : Thread} (h : s.user? i = some t)
    (now : Span) : s.UsersMoved (s.stepUser w i now t) := by
  rw [stepUser]
  match t.user.step s.controller.post w (s.view now t.retired) with
  | (u, effect) =>
    obtain ⟨hs, hcrew, _, _, hkeeps⟩ := usersMoved_of_user? h fun _ => u
    cases effect <;> exact ⟨hs, hcrew, rfl, .inr ⟨i, now, _, rfl⟩, hkeeps⟩

/-- Whose step something is that happens. -/
inductive Turn (s s' : Scene) : Prop where
  | controller (now : Span) (h : s' = s.stepController w now)
  /-- A thread cannot be started. -/
  | refuse (h : s' = s.modifyCrew (·.refuse))
  /-- A thread makes a step on its way out. -/
  | leave (i : Nat) (hi : s.user? i = none) (h : s' = s.modifyCrew (·.leave i))
  /-- It concerns virtual users only. -/
  | users (h : s.UsersMoved s')

/-- What a choice is that is none of the controller's, of a crew's, or of a thread on its way out.
-/
theorem next_cases (s : Scene) (choice : Choice) :
    (∃ now, choice = .controller now) ∨ choice = .refuse ∨
      (∃ i, choice = .leave i ∧ s.user? i = none) ∨ s.UsersMoved (s.next w choice) := by
  cases choice with
  | controller now => exact .inl ⟨now, rfl⟩
  | refuse => exact .inr (.inl rfl)
  | leave i =>
    rw [next]
    cases h : s.user? i with
    | none => exact .inr (.inr (.inl ⟨i, rfl, h⟩))
    | some t => exact .inr (.inr (.inr (.refl s)))
  | abort => exact .inr (.inr (.inr ⟨rfl, rfl, rfl, .inl rfl, fun _ _ h _ => h⟩))
  | user i now =>
    rw [next]
    cases h : s.user? i with
    | none => exact .inr (.inr (.inr (.refl s)))
    | some t => exact .inr (.inr (.inr (usersMoved_stepUser w h now)))
  | reply i reply =>
    have hmoved : s.UsersMoved (s.modifyUser i (·.receive reply)) :=
      usersMoved_modifyUser s i fun _ _ hover => receive_of_isOver hover reply
    exact .inr (.inr (.inr hmoved))
  | crash i =>
    rw [next]
    cases h : s.user? i with
    | none => exact .inr (.inr (.inr (.refl s)))
    | some t => exact .inr (.inr (.inr (usersMoved_of_user? h _)))

/-- Whatever is chosen, what comes of it is one of the turns. -/
theorem next_turn (s : Scene) (choice : Choice) : s.Turn w (s.next w choice) := by
  rcases next_cases w s choice with ⟨now, rfl⟩ | rfl | ⟨i, rfl, hi⟩ | hu
  · exact .controller now rfl
  · exact .refuse rfl
  · exact .leave i hi (by rw [next, hi])
  · exact .users hu

/-- Only its own steps change more of a controller than its crew and its budget. -/
theorem controller_next {s : Scene} {choice : Choice} (h : ∀ now, choice ≠ .controller now) :
    (s.next w choice).controller = { s.controller with
      crew := (s.next w choice).crew, budget := (s.next w choice).controller.budget } := by
  rcases next_cases w s choice with ⟨now, rfl⟩ | rfl | ⟨i, rfl, hi⟩ | hu
  · exact absurd rfl (h now)
  · rfl
  · rw [next, hi]
    rfl
  · exact hu.controller

/-! ## What holds of every crew -/

/-- A scene keeps its post. -/
theorem next_post (s : Scene) (choice : Choice) :
    (s.next w choice).controller.post = s.controller.post := by
  cases s.next_turn w choice with
  | controller now h =>
    rw [h]
    exact (s.controller.steps w now s.aborted).post
  | refuse h => rw [h]; rfl
  | leave i _ h => rw [h]; rfl
  | users h => exact h.post

/-- A scene keeps its post in all runs. -/
theorem run_post (gens : Nat → Random.Generator) (post : Post) (choices : List Choice) :
    ((start w gens post).run w choices).controller.post = post := by
  refine run_induction w (p := fun s => s.controller.post = post) rfl (fun s choice h => ?_) choices
  rw [next_post, h]

/-- All standings stay sound whatever is chosen. -/
theorem sound_next {s : Scene} (h : ∀ p ∈ s.crew.standings, p.Sound) (choice : Choice) :
    ∀ p ∈ (s.next w choice).crew.standings, p.Sound := by
  cases s.next_turn w choice with
  | controller now hc =>
    rw [hc]
    exact (s.controller.steps w now s.aborted).change.sound h
  | refuse hr =>
    rw [hr]
    show ∀ p ∈ s.crew.refuse.standings, p.Sound
    rwa [Crew.standings_refuse]
  | leave i _ hl =>
    rw [hl]
    exact Crew.sound_leave h i
  | users hu => rwa [hu.standings]

/-- In every run, whoever is on the way out counts as told to retire. -/
theorem run_sound (gens : Nat → Random.Generator) (post : Post) (choices : List Choice) :
    ∀ p ∈ ((start w gens post).run w choices).crew.standings, p.Sound :=
  run_induction w (p := fun s => ∀ p ∈ s.crew.standings, p.Sound) (by simp [start, Controller.new,
    crew, Crew.empty, Crew.standings]) (fun _ choice h => sound_next w h choice) choices

end Scene

end LoadReplay
