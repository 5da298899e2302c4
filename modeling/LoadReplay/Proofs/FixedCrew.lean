import LoadReplay.Proofs.Scene

/-!
# Crews of a fixed number of iterations

A controller of a fixed number of iterations starts all its users, as many as it should, and then
waits until they have ended by themselves.  It tells users to retire only if it fell short of
users because the thread of one could not be started (`Controller.FellShort`).
-/

namespace LoadReplay

/-- How many users a controller is in the middle of starting. -/
def Crew.Task.begun : Crew.Task → Nat
  | .addsActive _ | .addsRunning _ | .raisesPeak _ _ | .addsSpawned _ | .launches _
  | .dropsNewActive | .dropsNewRunning => 1
  | .none | .dropsActive | .inspects _ _ _ _ | .joins _ _ => 0

namespace Crew

/-- Nobody is live or told to retire. -/
def IsReleased (c : Crew) : Prop := c.live = [] ∧ c.draining = []

variable {c c' : Crew} {o : Outcome}

/-- A user that a controller begins to start is there in the end, or it is refused its thread. -/
theorem Works.begun (hw : c.Works c' o) (h : c.task.begun = 1) :
    c'.threads.length + c'.task.begun = c.threads.length + 1 ∧
        (c'.task = .none ∨ c'.task.begun = 1) ∧ (o = .nothing ∨ o = .started) ∨
      o = .refused ∧ c'.task = .none ∧ c'.threads = c.threads := by
  cases hw with
  | addsActive | addsRunning | raisesPeak | addsSpawned | dropsNewActive =>
    exact .inl ⟨rfl, .inr rfl, .inl rfl⟩
  | launches u =>
    refine .inl ⟨?_, .inl rfl, .inr rfl⟩
    rw [launch, List.length_append]
    rfl
  | dropsNewRunning => exact .inr ⟨rfl, rfl, rfl⟩
  | idle ht | dropsActive ht | seesGone _ _ _ _ _ ht | seesLeft _ _ _ _ _ ht | parts _ _ _ ht
  | joins _ _ _ _ ht | breaks _ _ _ ht | turns ht | ends ht =>
    rw [ht] at h
    cases h

/-- Counting a user down leaves all else as it is. -/
theorem Works.counts (hw : c.Works c' o) (h : c.task = .dropsActive) :
    o = .nothing ∧ c'.task = .none ∧ c'.threads = c.threads := by
  cases hw with
  | dropsActive => exact ⟨rfl, rfl, rfl⟩
  | idle ht | addsActive _ ht | addsRunning _ ht | raisesPeak _ _ ht | addsSpawned _ ht
  | launches _ ht | dropsNewActive ht | dropsNewRunning ht | seesGone _ _ _ _ _ ht
  | seesLeft _ _ _ _ _ ht | parts _ _ _ ht | joins _ _ _ _ ht | breaks _ _ _ ht | turns ht
  | ends ht => cases ht.symm.trans h

/-- While a crew is in the middle of something, nobody is told to retire. -/
theorem Works.retired (hw : c.Works c' o) {i : Nat} {t' : Thread}
    (ht' : c'.threads[i]? = some t') (hr : t'.retired = true) : c.threads[i]? = some t' := by
  cases hw with
  | launches u =>
    rw [launch, List.getElem?_append] at ht'
    split at ht'
    · exact ht'
    · rw [List.mem_singleton.1 (List.mem_of_getElem? ht')] at hr
      cases hr
  | parts roll => cases roll <;> exact ht'
  | joins _ _ _ c' _ hj => rwa [← threads_join? hj]
  | _ => exact ht'

end Crew

namespace Controller

/-- A user could not get its thread, so that there are fewer users than there should be. -/
def FellShort (iterations concurrency : Nat) (c : Controller) : Prop :=
  c.broken = true ∧ c.crew.threads.length < recruits iterations concurrency

/-- What holds in each phase of a controller whose users share a number of iterations. -/
def Shares (iterations concurrency : Nat) (c : Controller) : Prop :=
  match c.phase with
  | .delaying _ | .starting =>
    c.crew.task = .none ∧ c.crew.threads = [] ∧ c.crew.IsReleased ∧ c.broken = false
  | .recruiting left =>
    (c.crew.task = .none ∨ c.crew.task.begun = 1) ∧
      c.crew.threads.length + c.crew.task.begun + left = recruits iterations concurrency ∧
      c.budget ≠ none ∧ c.broken = false
  | .joining _ false => c.crew.task = .none ∧ c.crew.IsReleased
  | .closing => c.crew.task = .none ∧ (c.crew.IsReleased ∨ c.FellShort iterations concurrency)
  | .telling users =>
    (c.crew.task = .none ∨ c.crew.task = .dropsActive) ∧
      (users = [] ∨ c.FellShort iterations concurrency)
  | .joining _ true | .reporting | .ended _ | .failed | .crashed => c.crew.task = .none
  | .entering | .deciding _ | .scaling _ _ _ | .ticking _ _ => False

variable {iterations concurrency : Nat} {w : Waiting} {now : Span} {c c' : Controller} {e : Effect}

/-- A controller whose crew is idle goes from row to row of the table. -/
theorem Shares.acts (hx : c.post.scenario.executor = .fixedIterations iterations concurrency)
    (h : c.Shares iterations concurrency) (hidle : c.crew.task = .none)
    (ha : c.Acts w now c' e) : c'.Shares iterations concurrency := by
  have hrow := h
  rw [Shares] at hrow
  cases ha with
  | rests | awaits => exact h
  | delays _ _ _ hphase | delayed _ hphase =>
    rw [hphase] at hrow
    exact hrow
  | overflows | skips | reports => exact hidle
  | told => exact hidle
  | startsNone _ hphase =>
    rw [hphase] at hrow
    exact ⟨hidle, .inl hrow.2.2.1⟩
  | startsFixed n k hphase hx' =>
    rw [hphase] at hrow
    rw [hx, Executor.fixedIterations.injEq] at hx'
    obtain ⟨rfl, rfl⟩ := hx'
    refine ⟨.inl hidle, ?_, Option.some_ne_none _, hrow.2.2.2⟩
    show c.crew.threads.length + c.crew.task.begun + _ = _
    rw [hrow.2.1, hidle]
    exact Nat.zero_add _
  | startsConstant _ _ _ hx' | startsRamp _ _ _ _ hx' =>
    rw [hx] at hx'
    cases hx'
  | recruits left hphase =>
    rw [hphase, hidle] at hrow
    refine ⟨.inr rfl, ?_, hrow.2.2⟩
    show c.crew.threads.length + 1 + left = _
    rw [← hrow.2.1]
    show _ = c.crew.threads.length + 0 + (left + 1)
    omega
  | recruitedFixed => exact ⟨hidle, rfl, rfl⟩
  | recruited _ hx' => exact absurd hx (hx' _ _)
  | enters _ hphase | finishes _ hphase | finishesReaping _ hphase | aims _ _ _ hphase
  | looks _ _ hphase | retires _ _ _ hphase | spawns _ _ _ hphase | settles _ _ _ hphase
  | ticks _ _ _ _ hphase | ticked _ _ hphase | cuts _ _ hphase =>
    rw [hphase] at hrow
    exact hrow.elim
  | joinedAll last hphase =>
    rw [hphase] at hrow
    rw [joined]
    cases last with
    | false => exact ⟨hidle, .inl hrow.2⟩
    | true => cases c.broken <;> exact hidle
  | joins _ _ last _ hphase _ hj =>
    obtain ⟨_, _, rfl⟩ := Option.map_eq_some_iff.1 hj
    rw [hphase] at hrow
    cases last <;> exact hrow
  | breaks _ _ last hphase =>
    rw [hphase] at hrow
    cases last with
    | false => exact ⟨hidle, .inl hrow.2⟩
    | true => exact hidle
  | closes hphase =>
    rw [hphase] at hrow
    refine ⟨.inl hidle, hrow.2.imp_left fun hr => ?_⟩
    rw [hr.1, hr.2]
    rfl
  | tells i rest hphase =>
    rw [hphase] at hrow
    refine ⟨?_, .inr ?_⟩
    · show (c.crew.tell i).task = .none ∨ (c.crew.tell i).task = .dropsActive
      rw [Crew.tell]
      cases c.crew.isRetired i
      · exact .inr rfl
      · exact .inl rfl
    · -- Only a controller that fell short has somebody to tell.
      obtain ⟨hbroken, hlt⟩ := hrow.2.resolve_left (List.cons_ne_nil _ _)
      refine ⟨hbroken, ?_⟩
      show (c.crew.threads.modify i _).length < _
      rwa [List.length_modify]

/-- What the crew is in the middle of is to start a user, or to count one down. -/
theorem Shares.task (h : c.Shares iterations concurrency) (ht : c.crew.task ≠ .none) :
    (∃ left, c.phase = .recruiting left ∧ c.crew.task.begun = 1) ∨
      ∃ users, c.phase = .telling users ∧ c.crew.task = .dropsActive := by
  rw [Shares] at h
  match hphase : c.phase with
  | .recruiting left =>
    rw [hphase] at h
    exact .inl ⟨left, rfl, h.1.resolve_left ht⟩
  | .telling users =>
    rw [hphase] at h
    exact .inr ⟨users, rfl, h.1.resolve_left ht⟩
  | .delaying _ | .starting | .joining _ false | .closing =>
    rw [hphase] at h
    exact absurd h.1 ht
  | .joining _ true | .reporting | .ended _ | .failed | .crashed =>
    rw [hphase] at h
    exact absurd h ht
  | .entering | .deciding _ | .scaling _ _ _ | .ticking _ _ =>
    rw [hphase] at h
    exact h.elim

/-- The rest of the steps go from row to row as well. -/
theorem Shares.steps (hx : c.post.scenario.executor = .fixedIterations iterations concurrency)
    (h : c.Shares iterations concurrency) (hst : c.Steps w now c' e) :
    c'.Shares iterations concurrency := by
  -- The crew is busy in two phases only: while users are recruited and while they are told to
  -- retire.
  have hworks {crew : Crew} {o : Crew.Outcome} (ht : c.crew.task ≠ .none)
      (hw : c.crew.Works crew o) :
      ({ c with crew } : Controller).Shares iterations concurrency ∧
          (o = .nothing ∨ o = .started) ∨
        o = .refused ∧ crew.task = .none ∧
          crew.threads.length < recruits iterations concurrency := by
    rcases h.task ht with ⟨left, hphase, hbegun⟩ | ⟨users, hphase, hcounts⟩ <;>
      rw [Shares, hphase] at h
    · obtain ⟨-, hsum, hbudget, hbroken⟩ := h
      rcases hw.begun hbegun with ⟨hlen, htask, ho⟩ | ⟨ho, htask, hthreads⟩
      · refine .inl ⟨?_, ho⟩
        rw [Shares, hphase]
        refine ⟨htask, ?_, hbudget, hbroken⟩
        show crew.threads.length + crew.task.begun + left = recruits iterations concurrency
        omega
      · exact .inr ⟨ho, htask, by rw [hthreads]; omega⟩
    · obtain ⟨ho, htask, hthreads⟩ := hw.counts hcounts
      refine .inl ⟨?_, .inl ho⟩
      rw [Shares, hphase]
      refine ⟨.inl htask, h.2.imp_right fun hshort => ?_⟩
      rw [FellShort] at hshort ⊢
      rwa [hthreads]
  cases hst with
  | acts hidle ha => exact h.acts hx hidle ha
  | works ht hw | started ht hw =>
    rcases hworks ht hw with ⟨hshares, -⟩ | ⟨ho, -⟩
    · exact hshares
    · cases ho
  | joined _ ht hw | broken _ _ ht hw =>
    rcases hworks ht hw with ⟨-, ho | ho⟩ | ⟨ho, -⟩ <;> cases ho
  | refused ht hw =>
    rcases hworks ht hw with ⟨-, ho | ho⟩ | ⟨-, htask, hlt⟩
    · cases ho
    · cases ho
    · exact ⟨htask, .inr ⟨rfl, hlt⟩⟩

/-- A thread is only started while no user is missing. -/
theorem Shares.of_launches (h : c.Shares iterations concurrency) {u : User}
    (ht : c.crew.task = .launches u) : c.broken = false ∧ c.budget ≠ none := by
  rcases h.task (by rw [ht]; exact Crew.Task.noConfusion) with ⟨left, hphase, -⟩ | ⟨_, _, hcounts⟩
  · rw [Shares, hphase] at h
    exact ⟨h.2.2.2, h.2.2.1⟩
  · rw [ht] at hcounts
    cases hcounts

/-- Users that are missing are missing for good. -/
theorem FellShort.steps (hs : c.Shares iterations concurrency)
    (h : c.FellShort iterations concurrency) (hst : c.Steps w now c' e) :
    c'.FellShort iterations concurrency := by
  obtain ⟨hbroken, hlt⟩ := h
  refine ⟨hst.broken_of_broken hbroken, ?_⟩
  cases hst.change with
  | same hthreads => rwa [hthreads]
  | tell i hthreads =>
    rw [hthreads, Crew.tell, Crew.modify, List.length_modify]
    exact hlt
  | launch u ht =>
    -- After a failure no thread is started any more.
    rw [(hs.of_launches ht).1] at hbroken
    cases hbroken

/-- A user that is told to retire has been told before, or users are missing. -/
theorem Shares.retired (h : c.Shares iterations concurrency) (hst : c.Steps w now c' e) {i : Nat}
    {t' : Thread} (ht' : c'.crew.threads[i]? = some t') (hr : t'.retired = true) :
    c.crew.threads[i]? = some t' ∨ c.FellShort iterations concurrency := by
  have hsame (hthreads : c'.crew.threads = c.crew.threads) : c.crew.threads[i]? = some t' := by
    rwa [← hthreads]
  cases hst with
  | acts _ ha =>
    rw [Shares] at h
    cases ha with
    | tells _ _ hphase =>
      rw [hphase] at h
      exact .inr (h.2.resolve_left (List.cons_ne_nil _ _))
    | retires _ _ _ hphase =>
      rw [hphase] at h
      exact h.elim
    | joins _ _ _ _ _ _ hj => exact .inl (hsame (Crew.threads_join? hj))
    | joinedAll last => cases last <;> exact .inl ht'
    | breaks _ _ last => cases last <;> exact .inl ht'
    | _ => exact .inl ht'
  | works _ hw | started _ hw | joined _ _ hw | broken _ _ _ hw | refused _ hw =>
    exact .inl (hw.retired ht' hr)

/-- A budget is opened before the first user is started, and then only users change it. -/
theorem Shares.budget (hx : c.post.scenario.executor = .fixedIterations iterations concurrency)
    (h : c.Shares iterations concurrency) (hst : c.Steps w now c' e) :
    c'.budget = c.budget ∨ c.crew.threads = [] ∧ c'.crew.threads = [] ∧
      c'.budget = some (.full iterations) := by
  cases hst with
  | acts _ ha =>
    cases ha with
    | startsFixed n k hphase hx' =>
      rw [Shares, hphase] at h
      rw [hx, Executor.fixedIterations.injEq] at hx'
      exact .inr ⟨h.2.1, h.2.1, by rw [hx'.1]⟩
    | joinedAll last => cases last <;> exact .inl rfl
    | breaks _ _ last => cases last <;> exact .inl rfl
    | _ => exact .inl rfl
  | works | started | joined | broken | refused => exact .inl rfl

/-- Whether users are missing depends on how many were started. -/
theorem FellShort.of_crew {crew : Crew} {budget : Option Budget}
    (h : c.FellShort iterations concurrency)
    (hlen : crew.threads.length = c.crew.threads.length) :
    ({ c with crew, budget } : Controller).FellShort iterations concurrency := by
  refine ⟨h.1, ?_⟩
  show crew.threads.length < recruits iterations concurrency
  rw [hlen]
  exact h.2

/-- What happens to the crew and the budget alone. -/
theorem Shares.of_crew {crew : Crew} {budget : Option Budget}
    (h : c.Shares iterations concurrency)
    (htask : crew.task = c.crew.task ∨ c.crew.task.begun = 1 ∧ crew.task.begun = 1)
    (hlive : crew.live = c.crew.live) (hdraining : crew.draining = c.crew.draining)
    (hlen : crew.threads.length = c.crew.threads.length)
    (hbudget : c.budget ≠ none → budget ≠ none) :
    ({ c with crew, budget } : Controller).Shares iterations concurrency := by
  -- A task is as before, unless a user is being counted in, which may be a step further.
  have hkeeps {task : Crew.Task} (hzero : task.begun = 0) (ht : c.crew.task = task) :
      crew.task = task := by
    rcases htask with htask | ⟨hone, -⟩
    · rw [htask, ht]
    · rw [ht, hzero] at hone
      cases hone
  have hnone (ht : c.crew.task = .none) : crew.task = .none := hkeeps rfl ht
  have hshort (hs : c.FellShort iterations concurrency) :
      ({ c with crew, budget } : Controller).FellShort iterations concurrency :=
    hs.of_crew hlen
  have hreleased (hr : c.crew.IsReleased) : crew.IsReleased :=
    ⟨hlive.trans hr.1, hdraining.trans hr.2⟩
  rw [Shares] at h ⊢
  match hphase : c.phase with
  | .delaying _ | .starting =>
    rw [hphase] at h
    obtain ⟨ht, hthreads, hr, hbroken⟩ := h
    refine ⟨hnone ht, ?_, hreleased hr, hbroken⟩
    rw [hthreads] at hlen
    exact List.eq_nil_of_length_eq_zero hlen
  | .recruiting left =>
    rw [hphase] at h
    obtain ⟨ht, hsum, hb, hbroken⟩ := h
    refine ⟨?_, ?_, hbudget hb, hbroken⟩
    · rcases htask with htask | ⟨-, hone⟩
      · rwa [htask]
      · exact .inr hone
    · show crew.threads.length + crew.task.begun + left = _
      rcases htask with htask | ⟨hold, hnew⟩
      · rwa [htask, hlen]
      · omega
  | .joining _ false =>
    rw [hphase] at h
    exact ⟨hnone h.1, hreleased h.2⟩
  | .closing =>
    rw [hphase] at h
    exact ⟨hnone h.1, h.2.imp hreleased hshort⟩
  | .telling users =>
    rw [hphase] at h
    exact ⟨h.1.imp hnone (hkeeps rfl), h.2.imp_right hshort⟩
  | .joining _ true | .reporting | .ended _ | .failed | .crashed =>
    rw [hphase] at h
    exact hnone h
  | .entering | .deciding _ | .scaling _ _ _ | .ticking _ _ =>
    rw [hphase] at h
    exact h.elim

end Controller

end LoadReplay
