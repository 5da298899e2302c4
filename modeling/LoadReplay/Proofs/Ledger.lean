import LoadReplay.Proofs.Scene
import Mathlib.Data.List.Perm.Basic
import Mathlib.Data.List.Range

/-!
# Every user is accounted for

A user that was started is held by its controller, or it was joined, or it was given up when joining
another user failed: it is one of the three, and only once (`Ledger`).  So the log of a scene says
where each user is in the end.
-/

namespace LoadReplay

/-! ## What the log says -/

namespace Controller.Effect

/-- The user that was joined, with or without success. -/
def joined : Effect → List Nat
  | .joins i => [i]
  | .breaks i _ => [i]
  | _ => []

/-- The users that were given up. -/
def givenUp : Effect → List Nat
  | .breaks _ rest => rest
  | _ => []

end Controller.Effect

namespace Event

/-- The user that was joined in a step. -/
def joined : Event → List Nat
  | .controller _ effect => effect.joined
  | .user _ _ _ => []

/-- The users that were given up in a step. -/
def givenUp : Event → List Nat
  | .controller _ effect => effect.givenUp
  | .user _ _ _ => []

end Event

namespace Scene

/-- The users that were joined so far. -/
def joined (s : Scene) : List Nat := s.log.flatMap Event.joined

/-- The users that were given up so far. -/
def givenUp (s : Scene) : List Nat := s.log.flatMap Event.givenUp

/-- Users join nobody. -/
theorem joined_of_usersMoved {s s' : Scene} (h : s.UsersMoved s') : s'.joined = s.joined := by
  rcases h.log with hlog | ⟨i, now, effect, hlog⟩
  · rw [joined, joined, hlog]
  · rw [joined, joined, hlog, List.flatMap_append]
    exact List.append_nil _

/-- Nor do they give anybody up. -/
theorem givenUp_of_usersMoved {s s' : Scene} (h : s.UsersMoved s') : s'.givenUp = s.givenUp := by
  rcases h.log with hlog | ⟨i, now, effect, hlog⟩
  · rw [givenUp, givenUp, hlog]
  · rw [givenUp, givenUp, hlog, List.flatMap_append]
    exact List.append_nil _

variable (w : Waiting)

/-- What a step of the controller joins is added to what was joined before. -/
theorem joined_stepController (s : Scene) (now : Span) :
    (s.stepController w now).joined =
      s.joined ++ (s.controller.step w now s.aborted).2.joined := by
  rw [joined, joined, stepController, List.flatMap_append]
  congr 1
  exact List.append_nil _

/-- So is what it gives up. -/
theorem givenUp_stepController (s : Scene) (now : Span) :
    (s.stepController w now).givenUp =
      s.givenUp ++ (s.controller.step w now s.aborted).2.givenUp := by
  rw [givenUp, givenUp, stepController, List.flatMap_append]
  congr 1
  exact List.append_nil _

end Scene

/-! ## What a crew holds -/

namespace Crew

/-- The users that a crew holds: those that are live or told to retire, and those that are about to
be joined. -/
def held (c : Crew) : List Nat :=
  match c.task with
  | .inspects .live unseen gone left => unseen ++ gone ++ left ++ c.draining
  | .inspects .draining unseen gone left => c.live ++ (unseen ++ gone ++ left)
  | .joins _ gone => gone ++ c.live ++ c.draining
  | _ => c.live ++ c.draining

/-- The users whose threads were seen to have exited and that are about to be joined. -/
def departed (c : Crew) : List Nat :=
  match c.task with
  | .inspects _ _ gone _ => gone
  | .joins _ gone => gone
  | _ => []

/-- The users that are settled by what comes of a step. -/
def Outcome.settled : Outcome → List Nat
  | .joined i => [i]
  | .broken i rest => i :: rest
  | _ => []

/-- A crew in the middle of nothing holds the users of its two lists. -/
theorem held_of_idle {c : Crew} (h : c.task = .none) : c.held = c.live ++ c.draining := by
  rw [held, h]

/-- With one more index, one more index is counted. -/
theorem count_range_succ (n i : Nat) :
    (List.range (n + 1)).count i = (List.range n).count i + [n].count i := by
  rw [List.range_succ, List.count_append]

/-- A step of what a crew is in the middle of loses no user that it does not settle. -/
theorem Works.accounted {c c' : Crew} {o : Outcome} (hw : c.Works c' o) (i : Nat) :
    c'.held.count i + o.settled.count i + (List.range c.threads.length).count i =
      c.held.count i + (List.range c'.threads.length).count i := by
  -- Every index that leaves the hands of the crew is settled, and only a launch brings in a new
  -- one.
  cases hw with
  | launches u h =>
    show (c.live ++ [c.nextIndex] ++ c.draining).count i + [].count i + _ =
      _ + (List.range (c.threads ++ [_]).length).count i
    rw [List.length_append, List.length_singleton, count_range_succ, held, h, nextIndex]
    simp only [List.count_append, List.count_nil]
    omega
  | seesGone roll j unseen gone left h =>
    cases roll <;> simp only [held, h, Outcome.settled, List.count_append, List.count_cons,
      List.count_nil] <;> omega
  | seesLeft roll j unseen gone left h =>
    cases roll <;> simp only [held, h, Outcome.settled, List.count_append, List.count_cons,
      List.count_nil] <;> omega
  | parts roll gone left h =>
    cases roll <;> simp only [held, h, Outcome.settled, List.count_append, List.count_nil,
      setRoll] <;> omega
  | joins roll j gone c' h hj =>
    obtain ⟨_, _, rfl⟩ := Option.map_eq_some_iff.1 hj
    simp only [held, h, Outcome.settled, List.count_append, List.count_cons, List.count_nil]
    omega
  | breaks roll j gone h =>
    simp only [held, h, Outcome.settled, List.count_append, List.count_cons]
    omega
  | idle h => simp only [held, h, Outcome.settled, List.count_nil]; omega
  | addsActive _ h | addsRunning _ h | raisesPeak _ _ h | addsSpawned _ h | dropsNewActive h
  | dropsNewRunning h | dropsActive h =>
    simp only [held, h, Outcome.settled, List.count_nil]
    omega
  | turns h | ends h =>
    simp only [held, h, Outcome.settled, List.count_append, List.count_nil]
    omega

/-- A user that is told to retire moves from one list to the other, and is held as before. -/
theorem held_retireNewest {c : Crew} (h : c.task = .none) (i : Nat) :
    c.retireNewest.held.count i = c.held.count i := by
  rcases c.retireNewest_cases with hr | ⟨front, j, hfront, hr⟩ <;> rw [hr]
  have hheld : (({ c with live := front, draining := c.draining ++ [j] } : Crew).tell j).held =
      front ++ (c.draining ++ [j]) := by
    rw [held, tell]
    cases Crew.isRetired _ j <;> rfl
  rw [hheld, held_of_idle h, hfront]
  simp only [List.count_append]
  omega

/-- Telling a user to retire moves nobody. -/
theorem held_tell {c : Crew} (h : c.task = .none) (i : Nat) : (c.tell i).held = c.held := by
  rw [held_of_idle h, held, tell]
  cases c.isRetired i <;> rfl

end Crew

/-! ## What a controller holds -/

namespace Controller

/-- The users that a controller waits for. -/
def queue (c : Controller) : List Nat :=
  match c.phase with
  | .joining queue _ => queue
  | _ => []

/-- The users that a controller has neither joined nor given up. -/
def held (c : Controller) : List Nat := c.queue ++ c.crew.held

/-- The users that a step settles: it joins them or gives them up. -/
def Effect.settled (e : Effect) : List Nat := e.joined ++ e.givenUp

/-- What the crew is like in the phases in which it has been released, and before it is there. -/
def Rests (c : Controller) : Prop :=
  match c.phase with
  | .delaying _ | .starting | .joining _ _ | .reporting | .ended _ | .failed =>
    c.crew.task = .none ∧ c.crew.live = [] ∧ c.crew.draining = []
  | .telling users =>
    (c.crew.task = .none ∨ c.crew.task = .dropsActive) ∧
      ∀ i ∈ users, i ∈ c.crew.live ++ c.crew.draining
  | _ => True

variable {w : Waiting} {now : Span} {c c' : Controller} {e : Effect}

/-- A controller that overflows has nobody waiting to be joined. -/
theorem queue_of_overflows (h : c.Overflows now) : c.queue = [] := by
  rw [queue]
  cases h with
  | delay _ h | loop h | stage _ h | tick _ _ h => rw [h]

/-- To begin looking for users that are gone moves nobody. -/
theorem held_reap {crew : Crew} (h : crew.task = .none) (i : Nat) :
    crew.reap.held.count i = crew.held.count i := by
  rw [Crew.held_of_idle h, Crew.held, Crew.reap]
  simp only [List.count_append, List.count_nil]
  omega

/-- When all are joined, only the crew's lists are left. -/
theorem held_joined (c : Controller) (last : Bool) : (c.joined last).held = c.crew.held := by
  rw [held, queue, joined]
  cases last with
  | false => rfl
  | true => cases c.broken <;> rfl

/-- A controller whose crew is idle loses no user that it does not settle. -/
theorem Acts.accounted (h : c.Acts w now c' e) (hidle : c.crew.task = .none) (i : Nat) :
    c'.held.count i + e.settled.count i = c.held.count i := by
  have hheld := Crew.held_of_idle hidle
  -- As for the crew: whatever a rule takes out of the queue it joins, tells or gives up.
  cases h with
  | rests | awaits => rfl
  | delays _ _ _ h he | ticks _ _ _ _ h he =>
    rcases he with rfl | ⟨_, rfl⟩ <;> rw [held, held, queue, queue, h] <;> rfl
  | delayed _ h | skips _ h | startsNone _ h | startsFixed _ _ h | startsConstant _ _ h
  | startsRamp _ _ _ h | recruited h | enters _ h | finishes _ h | settles _ _ _ h | ticked _ _ h
  | cuts _ _ h | closes h | reports h =>
    rw [held, held, queue, queue, h]
    rfl
  | overflows h =>
    rw [held, held, queue_of_overflows h]
    rfl
  | recruits _ h | spawns _ _ _ h =>
    rw [held, held, queue, queue, hheld, enrol]
    simp only [h]
    rfl
  | recruitedFixed _ _ h | told h =>
    rw [held, held, queue, queue, h, hheld]
    show ((c.crew.live ++ c.crew.draining) ++ Crew.held c.crew.release.1).count i + 0 = _
    rw [Crew.held, Crew.release, hidle]
    simp
  | finishesReaping _ h | aims _ _ _ h | looks _ _ h =>
    rw [held, held, queue, queue, h]
    exact held_reap hidle i
  | retires _ _ _ h =>
    rw [held, held, queue, queue]
    simp only [h]
    exact Crew.held_retireNewest hidle i
  | tells j rest h =>
    rw [held, held, queue, queue, h]
    exact congrArg (List.count i) (Crew.held_tell hidle j)
  | joinedAll last h =>
    rw [held_joined, held, queue, h]
    rfl
  | joins j rest last crew h _ hj =>
    obtain ⟨_, _, rfl⟩ := Option.map_eq_some_iff.1 hj
    rw [held, held, queue, queue, h, hheld, Crew.held]
    simp only [hidle, Effect.settled, Effect.joined, Effect.givenUp, List.count_append,
      List.count_cons, List.count_nil]
    omega
  | breaks j rest last h =>
    rw [held_joined, held, queue, h]
    simp only [Effect.settled, Effect.joined, Effect.givenUp, List.count_append, List.count_cons,
      List.count_nil]
    omega

/-- When all are joined, the crew is as empty as it was while they were waited for. -/
theorem Rests.joined (h : c.Rests) {queue : List Nat} {last : Bool}
    (hphase : c.phase = .joining queue last) (broken : Bool) :
    ({ c with broken }.joined last).Rests := by
  rw [Rests, hphase] at h
  rw [Controller.joined]
  cases last with
  | false => exact trivial
  | true => cases broken <;> exact h

/-- Each row of the table leads to a phase whose crew is as it has to be. -/
theorem Rests.acts (h : c.Rests) (hidle : c.crew.task = .none) (ha : c.Acts w now c' e) :
    c'.Rests := by
  have hrow := h
  rw [Rests] at hrow
  -- Only where the phase is about the threads there is anything to show; the loops and pauses ask
  -- for nothing.
  cases ha with
  | rests | awaits => exact h
  | delays _ _ _ hphase | delayed _ hphase | skips _ hphase | reports hphase =>
    rw [hphase] at hrow
    exact hrow
  | startsNone | startsFixed | startsConstant | startsRamp | overflows | recruits | recruited
  | enters | finishes | finishesReaping | aims | looks | settles | ticks | ticked | cuts =>
    exact trivial
  | retires _ _ _ hphase | spawns _ _ _ hphase =>
    rw [Rests]
    simp only [enrol, hphase]
  | recruitedFixed | told => exact ⟨hidle, rfl, rfl⟩
  | joinedAll last hphase => exact h.joined hphase c.broken
  | breaks _ _ last hphase => exact h.joined hphase true
  | joins _ _ _ _ hphase _ hj =>
    obtain ⟨_, _, rfl⟩ := Option.map_eq_some_iff.1 hj
    rw [hphase] at hrow
    exact hrow
  | closes => exact ⟨.inl hidle, fun _ hi => hi⟩
  | tells i rest hphase =>
    rw [hphase] at hrow
    refine ⟨?_, fun j hj => hrow.2 j (List.mem_cons_of_mem _ hj)⟩
    show (c.crew.tell i).task = .none ∨ (c.crew.tell i).task = .dropsActive
    rw [Crew.tell]
    cases c.crew.isRetired i
    · exact .inr rfl
    · exact .inl rfl

/-- What happens to the crew alone and leaves its users where they are. -/
theorem Rests.of_crew {crew : Crew} {budget : Option Budget} (h : c.Rests)
    (htask : c.crew.task = .none ∨ c.crew.task = .dropsActive → crew.task = c.crew.task)
    (hlive : crew.live = c.crew.live) (hdraining : crew.draining = c.crew.draining) :
    ({ c with crew, budget } : Controller).Rests := by
  rw [Rests] at h ⊢
  match hphase : c.phase with
  | .delaying _ | .starting | .joining _ _ | .reporting | .ended _ | .failed =>
    rw [hphase] at h
    exact ⟨(htask (.inl h.1)).trans h.1, hlive.trans h.2.1, hdraining.trans h.2.2⟩
  | .telling users =>
    rw [hphase] at h
    refine ⟨?_, fun i hi => ?_⟩
    · show crew.task = .none ∨ crew.task = .dropsActive
      rw [htask h.1]
      exact h.1
    · show i ∈ crew.live ++ crew.draining
      rw [hlive, hdraining]
      exact h.2 i hi
  | .recruiting _ | .entering | .deciding _ | .scaling _ _ _ | .ticking _ _ | .closing
  | .crashed => trivial

/-- What a crew is in the middle of is nothing that its phase rules out. -/
theorem Rests.works {crew : Crew} {o : Crew.Outcome} (h : c.Rests) (hbusy : c.crew.task ≠ .none)
    (hw : c.crew.Works crew o) : ({ c with crew } : Controller).Rests := by
  rw [Rests] at h ⊢
  match hphase : c.phase with
  | .delaying _ | .starting | .joining _ _ | .reporting | .ended _ | .failed =>
    rw [hphase] at h
    exact absurd h.1 hbusy
  | .telling users =>
    rw [hphase] at h
    have ht := h.1.resolve_left hbusy
    cases hw with
    | dropsActive => exact ⟨.inl rfl, h.2⟩
    | _ => simp_all
  | .recruiting _ | .entering | .deciding _ | .scaling _ _ _ | .ticking _ _ | .closing
  | .crashed => trivial

/-- Every step of a controller leads to a phase whose crew is as it has to be. -/
theorem Rests.steps (h : c.Rests) (hst : c.Steps w now c' e) : c'.Rests := by
  cases hst with
  | acts hidle ha => exact h.acts hidle ha
  | works hbusy hw | started hbusy hw | joined _ hbusy hw => exact h.works hbusy hw
  | broken | refused => trivial

/-- Nobody is waited for while a crew is in the middle of something. -/
theorem Rests.queue_of_busy (h : c.Rests) (hbusy : c.crew.task ≠ .none) : c.queue = [] := by
  rw [Rests] at h
  rw [queue]
  split
  · rename_i hphase
    rw [hphase] at h
    exact absurd h.1 hbusy
  · rfl

/-- No step of a controller loses a user that it does not settle. -/
theorem Steps.accounted (hst : c.Steps w now c' e) (h : c.Rests) (i : Nat) :
    c'.held.count i + e.settled.count i + (List.range c.crew.threads.length).count i =
      c.held.count i + (List.range c'.crew.threads.length).count i := by
  cases hst with
  | acts hidle ha => rw [ha.accounted hidle i, ha.threads_length]
  | works hbusy hw | started hbusy hw | joined _ hbusy hw =>
    have hcrew := hw.accounted i
    have hqueue := h.queue_of_busy hbusy
    rw [queue] at hqueue
    rw [held, held, queue, queue, hqueue]
    exact hcrew
  | broken j rest hbusy hw | refused hbusy hw =>
    have hcrew := hw.accounted i
    have hheld : c.held = c.crew.held := by rw [held, h.queue_of_busy hbusy, List.nil_append]
    rw [hheld]
    exact hcrew

end Controller

/-! ## Users that are gone -/

namespace Crew

variable {c c' : Crew}

/-- A user that has exited stays so, whichever standing is changed into one that does not undo it.
-/
theorem isExited_modify {f : Standing → Standing} {j i : Nat}
    (hf : ∀ p : Standing, p.exit = .exited → (f p).exit = .exited)
    (h : c'.standings = c.standings.modify j f) (hi : c.isExited i) : c'.isExited i := by
  obtain ⟨p, hp, hx⟩ := isExited_iff.1 hi
  rw [isExited_iff, h, List.getElem?_modify, hp]
  by_cases hj : j = i
  · exact ⟨f p, by simp [hj], hf p hx⟩
  · exact ⟨p, by simp [hj], hx⟩

/-- Who is gone stays gone. -/
theorem Change.isExited (h : c.Change c') {i : Nat} (hi : c.isExited i) : c'.isExited i := by
  rcases h.standings with h | ⟨j, h⟩ | h
  · rwa [isExited_eq, h, ← isExited_eq]
  · exact isExited_modify (f := Standing.tell) (fun _ hx => hx) h hi
  · obtain ⟨p, hp, hx⟩ := isExited_iff.1 hi
    rw [isExited_iff, h, List.getElem?_append_left (List.getElem?_eq_some_iff.1 hp).1]
    exact ⟨p, hp, hx⟩

/-- A user that has exited stays so while others go on their way out. -/
theorem isExited_leave {i : Nat} (j : Nat) (hi : c.isExited i) : (c.leave j).isExited i := by
  refine isExited_modify (fun p hp => ?_) (c.standings_leave j) hi
  rw [Standing.leave, hp]

/-- Whoever is newly about to be joined was seen to have exited. -/
theorem Works.departed {o : Outcome} (hw : c.Works c' o) {i : Nat} (hi : i ∈ c'.departed) :
    i ∈ c.departed ∨ c.isExited i := by
  cases hw with
  | seesGone roll j unseen gone left h hx =>
    rw [Crew.departed, h]
    rcases List.mem_append.1 hi with hi | hi
    · exact .inl hi
    · rw [List.mem_singleton.1 hi]
      exact .inr hx
  | seesLeft roll j unseen gone left h =>
    rw [Crew.departed, h]
    exact .inl hi
  | parts roll gone left h =>
    rw [Crew.departed, h]
    cases roll <;> exact .inl hi
  | joins roll j gone c' h hj =>
    rw [Crew.departed, h]
    exact .inl (List.mem_cons_of_mem _ hi)
  | idle => exact .inl hi
  | _ => cases hi

/-- Who is about to be joined does not depend on the threads. -/
theorem departed_leave (i : Nat) : (c.leave i).departed = c.departed := by
  rcases c.leave_cases i with ⟨-, h⟩ | ⟨t, -, h⟩ <;> rw [h]
  rfl

/-- Nor does who is held. -/
theorem held_leave (i : Nat) : (c.leave i).held = c.held := by
  rcases c.leave_cases i with ⟨-, h⟩ | ⟨t, -, h⟩ <;> rw [h]
  rfl

end Crew

namespace Controller

variable {w : Waiting} {now : Span} {c c' : Controller} {e : Effect}

/-- A crew in the middle of nothing is about to join nobody. -/
theorem departed_of_idle {crew : Crew} (h : crew.task = .none) : crew.departed = [] := by
  rw [Crew.departed, h]

/-- Nor is one that has just told a user to retire. -/
theorem departed_tell (crew : Crew) (i : Nat) : (crew.tell i).departed = [] := by
  rw [Crew.departed, Crew.tell]
  cases crew.isRetired i <;> rfl

/-- A controller whose crew is idle does not know yet who is gone. -/
theorem Acts.departed (hidle : c.crew.task = .none) (ha : c.Acts w now c' e) :
    c'.crew.departed = [] := by
  have hnone := departed_of_idle hidle
  cases ha with
  | finishesReaping | aims | looks | recruits | spawns => rfl
  | tells i => exact departed_tell c.crew i
  | joinedAll last => cases last <;> exact hnone
  | breaks _ _ last => cases last <;> exact hnone
  | joins _ _ _ _ _ _ hj =>
    obtain ⟨_, _, rfl⟩ := Option.map_eq_some_iff.1 hj
    exact hnone
  | retires =>
    show c.crew.retireNewest.departed = []
    rcases c.crew.retireNewest_cases with hr | ⟨front, i, -, hr⟩ <;> rw [hr]
    · exact hnone
    · exact departed_tell _ i
  | _ => exact hnone

/-- In each step of a controller, whoever is newly about to be joined has exited. -/
theorem Steps.departed (hst : c.Steps w now c' e) {i : Nat} (hi : i ∈ c'.crew.departed) :
    i ∈ c.crew.departed ∨ c.crew.isExited i := by
  cases hst with
  | acts hidle ha =>
    rw [ha.departed hidle] at hi
    cases hi
  | works _ hw | started _ hw | joined _ _ hw | broken _ _ _ hw | refused _ hw =>
    exact hw.departed hi

/-- Whoever is joined, with or without success, is gone. -/
theorem Steps.joined_isExited (hst : c.Steps w now c' e)
    (hd : ∀ i ∈ c.crew.departed, c.crew.isExited i) : ∀ i ∈ e.joined, c.crew.isExited i := by
  cases hst with
  | acts hidle ha =>
    cases ha with
    | joins j _ _ _ _ hi | breaks j _ _ _ hi =>
      intro i hij
      rwa [List.mem_singleton.1 hij]
    | delays _ _ _ _ he | ticks _ _ _ _ _ he =>
      rcases he with rfl | ⟨_, rfl⟩ <;> exact fun _ hi => by cases hi
    | _ => exact fun _ hi => by cases hi
  | joined j hbusy hw =>
    intro i hij
    rw [List.mem_singleton.1 hij]
    cases hw with
    | joins roll _ gone c' h => exact hd j (by rw [Crew.departed, h]; exact List.mem_cons_self ..)
  | broken j rest hbusy hw =>
    intro i hij
    rw [List.mem_singleton.1 hij]
    cases hw with
    | breaks roll _ gone h => exact hd j (by rw [Crew.departed, h]; exact List.mem_cons_self ..)
  | works | started | refused => exact fun _ hi => by cases hi

end Controller

/-! ## Runs -/

namespace Scene

/-- Every user that was started is held by the controller, or it was joined or given up, and nobody
is joined before its thread has exited. -/
structure Ledger (s : Scene) : Prop where
  accounted : ∀ i, s.controller.held.count i + s.joined.count i + s.givenUp.count i =
    (List.range s.crew.threads.length).count i
  rests : s.controller.Rests
  departed : ∀ i ∈ s.crew.departed, s.crew.isExited i
  joined : ∀ i ∈ s.joined, s.crew.isExited i

variable {w : Waiting} {s s' : Scene}

/-- The ledger is kept by each step of the controller. -/
theorem Ledger.stepController (h : s.Ledger) (now : Span) : (s.stepController w now).Ledger := by
  have hst := s.controller.steps w now s.aborted
  refine ⟨fun i => ?_, h.rests.steps hst, fun i hi => ?_, fun i hi => ?_⟩
  · have hold := h.accounted i
    have hstep := hst.accounted h.rests i
    rw [joined_stepController, givenUp_stepController]
    show (s.controller.step w now s.aborted).1.held.count i + _ + _ =
      (List.range (s.controller.step w now s.aborted).1.crew.threads.length).count i
    rw [Controller.Effect.settled] at hstep
    simp only [List.count_append] at hstep ⊢
    rw [crew] at hold
    omega
  · rcases hst.departed hi with hd | hx
    · exact hst.change.isExited (h.departed i hd)
    · exact hst.change.isExited hx
  · rw [joined_stepController] at hi
    rcases List.mem_append.1 hi with hj | hj
    · exact hst.change.isExited (h.joined i hj)
    · exact hst.change.isExited (hst.joined_isExited h.departed i hj)

/-- Nothing happens to the ledger when users stay where they are and only more threads exit. -/
theorem Ledger.of_crew {crew : Crew} {budget : Option Budget} (h : s.Ledger)
    (hs : s'.controller = { s.controller with crew, budget })
    (hjoined : s'.joined = s.joined) (hgivenUp : s'.givenUp = s.givenUp)
    (hrests : ({ s.controller with crew, budget } : Controller).Rests)
    (hheld : crew.held = s.crew.held) (hdeparted : crew.departed = s.crew.departed)
    (hlength : crew.threads.length = s.crew.threads.length)
    (hexited : ∀ i, s.crew.isExited i → crew.isExited i) : s'.Ledger := by
  have hcrew : s'.crew = crew := by rw [Scene.crew, hs]
  refine ⟨fun i => ?_, by rw [hs]; exact hrests, fun i hi => ?_, fun i hi => ?_⟩
  · have := h.accounted i
    rw [hjoined, hgivenUp, hcrew, hlength, hs]
    rw [Controller.held] at this ⊢
    show (s.controller.queue ++ crew.held).count i + _ + _ = _
    rw [hheld]
    exact this
  · rw [hcrew] at hi ⊢
    rw [hdeparted] at hi
    exact hexited i (h.departed i hi)
  · rw [hjoined] at hi
    rw [hcrew]
    exact hexited i (h.joined i hi)

/-- It is kept when a thread cannot be started: nobody has been started then. -/
theorem Ledger.refuse (h : s.Ledger) : (s.modifyCrew (·.refuse)).Ledger := by
  rcases s.crew.refuse_cases with hr | ⟨u, ht, hr⟩
  · rw [modifyCrew, hr]
    exact h
  · rw [modifyCrew, hr]
    refine h.of_crew rfl rfl rfl (h.rests.of_crew (fun htask => ?_) rfl rfl) ?_ ?_ rfl
      fun i hi => hi
    · rw [show s.controller.crew.task = _ from ht] at htask
      rcases htask with htask | htask <;> cases htask
    · rw [Crew.held, Crew.held, ht]
    · rw [Crew.departed, Crew.departed, ht]

/-- It is kept when a thread goes on its way out. -/
theorem Ledger.leave (h : s.Ledger) (i : Nat) : (s.modifyCrew (·.leave i)).Ledger := by
  obtain ⟨htask, hlive, hdraining⟩ := s.crew.task_leave i
  refine h.of_crew rfl rfl rfl (h.rests.of_crew (fun _ => htask) hlive hdraining)
    (Crew.held_leave i) (Crew.departed_leave i) (s.crew.length_leave i)
    fun j hj => Crew.isExited_leave i hj

/-- It is kept by whatever users do. -/
theorem Ledger.users (h : s.Ledger) (hu : s.UsersMoved s') : s'.Ledger := by
  refine h.of_crew hu.controller (joined_of_usersMoved hu) (givenUp_of_usersMoved hu)
    (h.rests.of_crew (fun _ => hu.task) hu.live hu.draining) ?_ ?_ hu.length fun i hi => ?_
  · rw [Crew.held, hu.task, hu.live, hu.draining]
    rfl
  · rw [Crew.departed, hu.task]
    rfl
  · rwa [Crew.isExited_eq, hu.standings, ← Crew.isExited_eq]

/-- Whatever happens keeps the ledger. -/
theorem Ledger.next (h : s.Ledger) (choice : Choice) : (s.next w choice).Ledger := by
  cases s.next_turn w choice with
  | controller now hc =>
    rw [hc]
    exact h.stepController now
  | refuse hr =>
    rw [hr]
    exact h.refuse
  | leave i _ hl =>
    rw [hl]
    exact h.leave i
  | users hu => exact h.users hu

/-- At first there is nobody to be accounted for. -/
theorem ledger_start (w : Waiting) (gens : Nat → Random.Generator) (post : Post) :
    (Scene.start w gens post).Ledger := by
  refine ⟨fun i => ?_, ?_, fun i hi => ?_, fun i hi => ?_⟩
  · show (Controller.new w gens post).held.count i + 0 + 0 = 0
    rw [Controller.new, Controller.held, Controller.queue]
    cases post.scenario.startTime.isZero <;> rfl
  · show (Controller.new w gens post).Rests
    rw [Controller.new, Controller.Rests]
    cases post.scenario.startTime.isZero <;> exact ⟨rfl, rfl, rfl⟩
  · cases hi
  · cases hi

/-- **The ledger is kept in every run.** -/
theorem ledger_run (w : Waiting) (gens : Nat → Random.Generator) (post : Post)
    (choices : List Choice) :
    ((Scene.start w gens post).run w choices).Ledger :=
  run_induction w (ledger_start w gens post) (fun _ choice h => h.next choice) choices

end Scene

end LoadReplay
