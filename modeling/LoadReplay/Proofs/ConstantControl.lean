import LoadReplay.Proofs.ConstantCrew
import LoadReplay.Proofs.Totals

/-!
# Controllers of a constant number of users

A controller of a constant number of users starts all of them and then looks again and again for
users that are gone.  As long as no user leaves by itself it finds none, so that all users are there
until the controller has seen the end of its time (`Controller.Mans`, `Controller.Mans.leaves`).
-/

namespace LoadReplay

namespace Controller

variable {concurrency : Nat} {duration : Span}

/-- Whether a control loop goes on up to a moment. -/
def Loop.IsTimed (loop : Loop) : Prop := ∃ deadline, loop = .untilTime deadline

/-- Whether a report says what the crew has counted. -/
structure TellsOf (c : Controller) (report : ScenarioReport) : Prop where
  spawned : report.vusSpawned = c.crew.gauge.spawned
  peak : report.peakVus = c.crew.gauge.peak
  interrupted : report.interrupted = (c.cut || c.crew.interrupted)

/-- What holds in each phase of a controller of a constant number of users. -/
def Mans (concurrency : Nat) (c : Controller) : Prop :=
  match c.phase with
  | .delaying _ | .starting => c.crew.Grown ∧ c.crew.task = .none ∧ c.crew.threads = []
  | .recruiting left =>
    c.crew.Grown ∧ (c.crew.task = .none ∨ c.crew.task.begun = 1) ∧
      c.crew.threads.length + c.crew.task.begun + left = concurrency
  | .entering => c.crew.Grown ∧ c.crew.task = .none ∧ c.crew.threads.length = concurrency
  | .deciding loop =>
    c.crew.Grown ∧ c.crew.task = .none ∧ c.crew.threads.length = concurrency ∧ loop.IsTimed
  | .ticking _ loop =>
    c.crew.Grown ∧ c.crew.task.FindsNobody c.crew.live ∧ c.crew.threads.length = concurrency ∧
      loop.IsTimed
  | .scaling _ _ _ | .joining _ false => False
  | .closing | .telling _ | .joining _ true =>
    c.crew.task.IsQuiet ∧ c.crew.threads.length ≤ concurrency ∧
      (c.broken = true ∨ c.crew.Manned concurrency)
  | .reporting => c.crew.task.IsQuiet ∧ c.crew.Manned concurrency
  | .ended report => c.crew.task.IsQuiet ∧ c.crew.Manned concurrency ∧ c.TellsOf report
  | .failed => c.crew.task.IsQuiet ∧ c.crew.threads.length ≤ concurrency ∧ c.broken = true
  | .crashed => c.crew.task.IsQuiet ∧ c.crew.threads.length ≤ concurrency

variable {w : Waiting} {now : Span} {c c' : Controller} {e : Effect}

/-- What the rules leave open of a controller that sees no abort: it does not give up before its
start, and it ends its loop at a reading of the clock and not before the time. -/
structure Minds (now : Span) (c c' : Controller) : Prop where
  starts : ∀ p report, c.phase = .delaying p → c'.phase ≠ .ended report
  ticks : ∀ p loop, c.phase = .ticking p loop → c'.phase ≠ .closing
  finishes : ∀ deadline, c.phase = .deciding (.untilTime deadline) → c'.phase = .closing →
    deadline ≤ now ∧ c'.crew = c.crew

/-- Without an abort a step is as the rules leave it open. -/
theorem minds_step (c : Controller) (hidle : c.crew.task = .none) :
    c.Minds now (c.step w now false).1 := by
  have hact : c.step w now false = c.act w now false := by
    rw [step, if_pos (by rw [Crew.isIdle, hidle])]
  rw [hact]
  -- A pause that is not aborted ends in full, so neither the start nor a tick is cut short.
  constructor
  · intro p report hphase
    rw [act, hphase]
    show (c.delayNext (p.step now false)).1.phase ≠ _
    cases hnext : p.step now false with
    | ends whole =>
      cases whole with
      | true => exact Phase.noConfusion
      | false => cases Pause.aborted_of_ends hnext
    | _ => exact Phase.noConfusion
  · intro p loop hphase
    rw [act, hphase]
    show (c.tickNext loop (p.step now false)).1.phase ≠ _
    cases hnext : p.step now false with
    | ends whole =>
      cases whole with
      | true => exact Phase.noConfusion
      | false => cases Pause.aborted_of_ends hnext
    | _ => exact Phase.noConfusion
  · intro deadline hphase
    have hdecide : c.act w now false = c.decide w (.untilTime deadline) now := by rw [act, hphase]
    rw [hdecide, decide, Loop.decide]
    by_cases hle : deadline ≤ now
    · rw [if_pos hle]
      exact fun _ => ⟨hle, rfl⟩
    · rw [if_neg hle]
      exact fun hclosing => by cases hclosing

/-- Who is to be started and was started makes up the number. -/
theorem Mans.length_le (h : c.Mans concurrency) : c.crew.threads.length ≤ concurrency := by
  rw [Mans] at h
  -- In each phase the invariant fixes the number of threads or bounds it.
  match hphase : c.phase with
  | .delaying _ | .starting =>
    rw [hphase] at h
    rw [h.2.2]
    exact Nat.zero_le _
  | .recruiting _ =>
    rw [hphase] at h
    omega
  | .entering =>
    rw [hphase] at h
    exact Nat.le_of_eq h.2.2
  | .deciding _ | .ticking _ _ =>
    rw [hphase] at h
    exact Nat.le_of_eq h.2.2.1
  | .closing | .telling _ | .joining _ true | .failed =>
    rw [hphase] at h
    exact h.2.1
  | .crashed =>
    rw [hphase] at h
    exact h.2
  | .reporting =>
    rw [hphase] at h
    exact Nat.le_of_eq h.2.length
  | .ended _ =>
    rw [hphase] at h
    exact Nat.le_of_eq h.2.1.length
  | .scaling _ _ _ | .joining _ false =>
    rw [hphase] at h
    exact h.elim

/-! ### From row to row of the table

One lemma for each phase that a controller is in while its crew is in the middle of nothing. -/

section Rows

variable (h : c.Mans concurrency)

include h

/-- The loop of a constant number of users never aims at another number. -/
theorem Mans.not_aims {loop : Loop} {interval pause : Span} {target : Nat}
    (hphase : c.phase = .deciding loop) :
    loop.decide interval now ≠ .goOn (some target) pause := by
  rw [Mans, hphase] at h
  obtain ⟨deadline, rfl⟩ := h.2.2.2
  intro hd
  rw [Loop.decide] at hd
  split at hd
  · cases hd
  · cases hd

/-- A user is told to retire, and nobody is started any more. -/
theorem Mans.tells {i : Nat} {rest : List Nat} (hphase : c.phase = .telling (i :: rest)) :
    ({ c with crew := c.crew.tell i, phase := .telling rest } : Controller).Mans concurrency := by
  have hlength := h.length_le
  rw [Mans, hphase] at h
  have hsame : (c.crew.tell i).threads.length = c.crew.threads.length := List.length_modify _ _ _
  refine ⟨c.crew.isQuiet_tell i, hsame.trans_le hlength, h.2.2.imp_right fun hm => ?_⟩
  exact ⟨hsame.trans hm.length, hm.peak, hm.spawned⟩

variable (hidle : c.crew.task = .none)

include hidle

/-- All users are about to be started, and nobody was. -/
theorem Mans.starts (hphase : c.phase = .starting) :
    ({ c with began := now, phase := .recruiting concurrency } : Controller).Mans concurrency := by
  rw [Mans, hphase] at h
  obtain ⟨hgrown, -, hthreads⟩ := h
  refine ⟨hgrown, .inl hidle, ?_⟩
  show c.crew.threads.length + c.crew.task.begun + concurrency = concurrency
  rw [hthreads, hidle]
  exact Nat.zero_add _

/-- One more user is about to be started, and one less is left to be. -/
theorem Mans.recruits {left : Nat} (hphase : c.phase = .recruiting (left + 1)) :
    ({ c with phase := .recruiting left } : Controller).enrol.Mans concurrency := by
  rw [Mans, hphase, hidle] at h
  obtain ⟨⟨hintact, hpeak, hspawned, -⟩, -, hsum⟩ := h
  rw [hidle] at hpeak hspawned
  refine ⟨⟨⟨hintact.live, hintact.draining, hintact.staying⟩, hpeak, hspawned,
    fun _ _ hr => by cases hr⟩, .inr rfl, ?_⟩
  show c.crew.threads.length + 1 + left = concurrency
  rw [← hsum]
  show _ = c.crew.threads.length + 0 + (left + 1)
  omega

/-- When nobody is left to be started, all users are there. -/
theorem Mans.recruited (hphase : c.phase = .recruiting 0) :
    ({ c with phase := .entering } : Controller).Mans concurrency := by
  rw [Mans, hphase, hidle] at h
  exact ⟨h.1, hidle, h.2.2⟩

/-- The loop lasts up to a moment. -/
theorem Mans.enters {loop : Loop} (hphase : c.phase = .entering)
    (hx : c.post.scenario.executor = .constantConcurrency concurrency duration)
    (hl : c.loop? now = some loop) :
    ({ c with phase := .deciding loop } : Controller).Mans concurrency := by
  rw [Mans, hphase] at h
  refine ⟨h.1, hidle, h.2.2, ?_⟩
  rw [loop?, hx] at hl
  obtain ⟨deadline, -, rfl⟩ := Option.map_eq_some_iff.1 hl
  exact ⟨deadline, rfl⟩

/-- A look for users that are gone begins with all users there. -/
theorem Mans.looks {loop : Loop} {pause : Pause} (hphase : c.phase = .deciding loop) :
    ({ c with crew := c.crew.reap, phase := .ticking pause loop } : Controller).Mans
      concurrency := by
  rw [Mans, hphase] at h
  obtain ⟨hgrown, -, hall⟩ := h
  have hnobody : c.crew.task.FindsNobody [] := Crew.Task.findsNobody_of_idle hidle []
  have hlook : Crew.Task.FindsNobody c.crew.live (.inspects .live c.crew.live [] []) := ⟨rfl, rfl⟩
  exact ⟨hgrown.looks hnobody hlook, hlook, hall⟩

/-- When the loop ends, all users have been there. -/
theorem Mans.manned_of_deciding {loop : Loop} (hphase : c.phase = .deciding loop) :
    c.crew.Manned concurrency := by
  rw [Mans, hphase] at h
  exact h.1.manned (Crew.Task.findsNobody_of_idle hidle []) h.2.2.1

/-- When a control pause is cut short, all users have been there too. -/
theorem Mans.manned_of_ticking {p : Pause} {loop : Loop} (hphase : c.phase = .ticking p loop) :
    c.crew.Manned concurrency := by
  rw [Mans, hphase] at h
  exact h.1.manned (Crew.Task.findsNobody_of_idle hidle []) h.2.2.1

/-- When all are told to retire, all are waited for. -/
theorem Mans.told (hphase : c.phase = .telling []) :
    ({ c with crew := c.crew.release.1, phase := .joining c.crew.release.2 true } :
      Controller).Mans concurrency := by
  have hlength := h.length_le
  rw [Mans, hphase] at h
  exact ⟨.inl hidle, hlength, h.2.2.imp_right fun hm => ⟨hm.length, hm.peak, hm.spawned⟩⟩

/-- Only the last join is ever made, and it leads to the report unless a user has failed. -/
theorem Mans.joinedAll {last : Bool} (hphase : c.phase = .joining [] last) :
    (c.joined last).Mans concurrency := by
  have hlength := h.length_le
  rw [Mans, hphase] at h
  rw [Controller.joined]
  cases last with
  | false => exact h.elim
  | true =>
    cases hbroken : c.broken with
    | true => exact ⟨.inl hidle, hlength, rfl⟩
    | false =>
      have hmanned := h.2.2.resolve_left (by rw [hbroken]; exact Bool.noConfusion)
      exact ⟨.inl hidle, hmanned⟩

/-- A user that is joined takes nothing away from what was counted. -/
theorem Mans.joins {i : Nat} {rest : List Nat} {last : Bool} {crew : Crew}
    (hphase : c.phase = .joining (i :: rest) last) (hj : c.crew.join? i = some crew) :
    ({ c with crew, phase := .joining rest last } : Controller).Mans concurrency := by
  have hlength := h.length_le
  rw [Mans, hphase] at h
  obtain ⟨_, _, rfl⟩ := Option.map_eq_some_iff.1 hj
  cases last with
  | false => exact h.elim
  | true =>
    exact ⟨.inl hidle, hlength, h.2.2.imp_right fun hm => ⟨hm.length, hm.peak, hm.spawned⟩⟩

/-- When joining a user has failed, nothing is said about the count. -/
theorem Mans.breaks {i : Nat} {rest : List Nat} {last : Bool}
    (hphase : c.phase = .joining (i :: rest) last) :
    (({ c with broken := true } : Controller).joined last).Mans concurrency := by
  have hlength := h.length_le
  rw [Mans, hphase] at h
  cases last with
  | false => exact h.elim
  | true => exact ⟨.inl hidle, hlength, rfl⟩

end Rows

/-- A controller whose crew is idle goes from row to row of the table. -/
theorem Mans.acts (hx : c.post.scenario.executor = .constantConcurrency concurrency duration)
    (h : c.Mans concurrency) (hidle : c.crew.task = .none) (ha : c.Acts w now c' e)
    (hminds : c.Minds now c') :
    c'.Mans concurrency := by
  have hrow := h
  have hlength := h.length_le
  have hquiet : c.crew.task.IsQuiet := .inl hidle
  rw [Mans] at hrow
  -- Each rule leads to the row of the phase that it enters; rules of other executors and of aborts
  -- cannot apply here.
  cases ha with
  | rests | awaits => exact h
  | delays _ _ _ hphase | delayed _ hphase | ticks _ _ _ _ hphase =>
    rw [hphase] at hrow
    exact hrow
  | skips p hphase => exact absurd rfl (hminds.starts p _ hphase)
  | overflows => exact ⟨hquiet, hlength⟩
  | startsNone _ _ hx' | startsFixed _ _ _ hx' | startsRamp _ _ _ _ hx'
  | recruitedFixed _ _ _ hx' =>
    rw [hx] at hx'
    cases hx'
  | startsConstant n d hphase hx' =>
    rw [hx, Executor.constantConcurrency.injEq] at hx'
    obtain ⟨rfl, -⟩ := hx'
    exact h.starts hidle hphase
  | recruits left hphase => exact h.recruits hidle hphase
  | recruited hphase => exact h.recruited hidle hphase
  | enters loop hphase hl => exact h.enters hidle hphase hx hl
  | finishes _ hphase => exact ⟨hquiet, hlength, .inr (h.manned_of_deciding hidle hphase)⟩
  | finishesReaping loop hphase =>
    have hmanned := h.manned_of_deciding hidle hphase
    rw [hphase] at hrow
    obtain ⟨deadline, rfl⟩ := hrow.2.2.2
    have hsame : c.crew.reap = c.crew := (hminds.finishes deadline hphase rfl).2
    refine ⟨?_, hlength, .inr ⟨hmanned.length, hmanned.peak, hmanned.spawned⟩⟩
    show c.crew.reap.task.IsQuiet
    rwa [hsame]
  | aims loop _ _ hphase hd => exact absurd hd (h.not_aims hphase)
  | looks loop pause hphase => exact h.looks hidle hphase
  | retires _ _ _ hphase | spawns _ _ _ hphase | settles _ _ _ hphase =>
    rw [hphase] at hrow
    exact hrow.elim
  | ticked _ _ hphase =>
    rw [hphase] at hrow
    exact ⟨hrow.1, hidle, hrow.2.2⟩
  | cuts _ _ hphase => exact ⟨hquiet, hlength, .inr (h.manned_of_ticking hidle hphase)⟩
  | joinedAll last hphase => exact h.joinedAll hidle hphase
  | joins _ _ _ _ hphase _ hj => exact h.joins hidle hphase hj
  | breaks _ _ _ hphase => exact h.breaks hidle hphase
  | closes hphase =>
    rw [hphase] at hrow
    exact ⟨hquiet, hlength, hrow.2.2⟩
  | tells i rest hphase => exact h.tells hphase
  | told hphase => exact h.told hidle hphase
  | reports hphase =>
    rw [hphase] at hrow
    exact ⟨hquiet, hrow.2, ⟨rfl, rfl, rfl⟩⟩

/-- What the crew is in the middle of goes from row to row as well. -/
theorem Mans.works {crew : Crew} {o : Crew.Outcome} (h : c.Mans concurrency)
    (hbusy : c.crew.task ≠ .none) (hs : ∀ p ∈ c.crew.standings, p.Sound)
    (hbalanced : c.crew.Balanced) (hw : c.crew.Works crew o) :
    ({ c with crew } : Controller).Mans concurrency ∧ (o = .nothing ∨ o = .started) ∨
      o = .refused ∧ crew.task = .none ∧ crew.threads.length ≤ concurrency := by
  have hlength := h.length_le
  -- What a crew does on the way out only lowers counts.
  have hquiet (hq : c.crew.task.IsQuiet) : o = .nothing ∧ crew.task.IsQuiet ∧
      crew.threads.length = c.crew.threads.length ∧ crew.gauge.peak = c.crew.gauge.peak ∧
        crew.gauge.spawned = c.crew.gauge.spawned ∧ crew.reports = c.crew.reports := by
    obtain ⟨ho, rfl⟩ := hw.countsDown hq hbusy
    exact ⟨ho, .inl rfl, rfl, rfl, rfl, rfl⟩
  have hmanned (hq : c.crew.task.IsQuiet) (hm : c.crew.Manned concurrency) :
      crew.Manned concurrency := by
    obtain ⟨-, -, hlen, hpeak, hspawned, -⟩ := hquiet hq
    exact ⟨hlen.trans hm.length, hpeak.trans hm.peak, hspawned.trans hm.spawned⟩
  rw [Mans] at h
  match hphase : c.phase with
  | .delaying _ | .starting | .entering =>
    rw [hphase] at h
    exact absurd h.2.1 hbusy
  | .deciding _ =>
    rw [hphase] at h
    exact absurd h.2.1 hbusy
  | .scaling _ _ _ | .joining _ false =>
    rw [hphase] at h
    exact h.elim
  | .recruiting left =>
    rw [hphase] at h
    obtain ⟨hgrown, htask, hsum⟩ := h
    -- A user is being started: either a step further, or the thread could not be started.
    have hbegun := htask.resolve_left hbusy
    rcases hw.begun hbegun with ⟨hlen, hnext, ho⟩ | ⟨ho, hnone, hthreads⟩
    · refine .inl ⟨?_, ho⟩
      have hrunning := (hgrown.intact.gauge hs hbalanced).2
      have hnew : o ≠ .refused := by rcases ho with rfl | rfl <;> exact Crew.Outcome.noConfusion
      refine ⟨hw.grows hgrown hbegun hrunning hnew, hnext, ?_⟩
      show crew.threads.length + crew.task.begun + left = concurrency
      omega
    · exact .inr ⟨ho, hnone, by rw [hthreads]; exact hlength⟩
  | .ticking _ loop =>
    rw [hphase] at h
    obtain ⟨hgrown, htask, hall, htimed⟩ := h
    -- Nobody has exited, so looking at the threads changes nothing but the place in the list.
    obtain ⟨ho, hcrew, hnext⟩ := hw.looks hgrown.intact (hgrown.intact.not_exited hs) htask
    have hnew : ({ c.crew with task := crew.task } : Crew).Grown := hgrown.looks htask hnext
    refine .inl ⟨?_, .inl ho⟩
    rw [hcrew]
    exact ⟨hnew, hnext, hall, htimed⟩
  | .closing | .telling _ | .joining _ true =>
    rw [hphase] at h
    obtain ⟨hq, -, hrest⟩ := h
    obtain ⟨ho, hq', hlen, -⟩ := hquiet hq
    refine .inl ⟨?_, .inl ho⟩
    exact ⟨hq', hlen.trans_le hlength, hrest.imp_right (hmanned hq)⟩
  | .reporting =>
    rw [hphase] at h
    obtain ⟨hq, hm⟩ := h
    obtain ⟨ho, hq', -⟩ := hquiet hq
    refine .inl ⟨?_, .inl ho⟩
    exact ⟨hq', hmanned hq hm⟩
  | .ended report =>
    rw [hphase] at h
    obtain ⟨hq, hm, hspawned, hpeak, hinterrupted⟩ := h
    obtain ⟨ho, hq', -, hpeak', hspawned', hreports⟩ := hquiet hq
    refine .inl ⟨?_, .inl ho⟩
    refine ⟨hq', hmanned hq hm, hspawned.trans hspawned'.symm, hpeak.trans hpeak'.symm, ?_⟩
    rw [hinterrupted, Crew.interrupted, Crew.interrupted, hreports]
  | .failed =>
    rw [hphase] at h
    obtain ⟨hq, -, hbroken⟩ := h
    obtain ⟨ho, hq', hlen, -⟩ := hquiet hq
    exact .inl ⟨⟨hq', hlen.trans_le hlength, hbroken⟩, .inl ho⟩
  | .crashed =>
    rw [hphase] at h
    obtain ⟨ho, hq', hlen, -⟩ := hquiet h.1
    exact .inl ⟨⟨hq', hlen.trans_le hlength⟩, .inl ho⟩

/-- The rest of the steps go from row to row as well, but for those that end the controller's
work because a user failed. -/
theorem Mans.steps (hx : c.post.scenario.executor = .constantConcurrency concurrency duration)
    (h : c.Mans concurrency) (hs : ∀ p ∈ c.crew.standings, p.Sound) (hbalanced : c.crew.Balanced)
    (hst : c.Steps w now c' e) (hminds : c.crew.task = .none → c.Minds now c') :
    c'.Mans concurrency := by
  cases hst with
  | acts hidle ha => exact h.acts hx hidle ha (hminds hidle)
  | works hbusy hw | started hbusy hw =>
    rcases h.works hbusy hs hbalanced hw with ⟨hmans, -⟩ | ⟨ho, -⟩
    · exact hmans
    · cases ho
  | joined _ hbusy hw | broken _ _ hbusy hw =>
    rcases h.works hbusy hs hbalanced hw with ⟨-, ho | ho⟩ | ⟨ho, -⟩ <;> cases ho
  | refused hbusy hw =>
    rcases h.works hbusy hs hbalanced hw with ⟨-, ho | ho⟩ | ⟨-, htask, hlength⟩
    · cases ho
    · cases ho
    · exact ⟨.inl htask, hlength, .inl rfl⟩

/-- What happens to the crew without the controller changes no row. -/
theorem Mans.of_crew {crew : Crew} {budget : Option Budget} (h : c.Mans concurrency)
    (halike : c.crew.Alike crew) : ({ c with crew, budget } : Controller).Mans concurrency := by
  -- A crew that is alike may be a step further in counting in a user, and in nothing else.
  have hidle (ht : c.crew.task = .none) : crew.task = .none := by
    rw [halike.task_eq (by rw [ht]; rfl), ht]
  have hquiet (hq : c.crew.task.IsQuiet) : crew.task.IsQuiet := by
    rcases hq with ht | ht
    · exact .inl (hidle ht)
    · rw [halike.task_eq (by rw [ht]; rfl)]
      exact .inr ht
  have hmanned (hm : c.crew.Manned concurrency) : crew.Manned concurrency :=
    ⟨halike.length.trans hm.length, halike.peak.trans hm.peak, halike.spawned.trans hm.spawned⟩
  rw [Mans] at h
  match hphase : c.phase with
  | .delaying _ | .starting =>
    rw [hphase] at h
    obtain ⟨hgrown, ht, hthreads⟩ := h
    refine ⟨halike.grown hgrown, hidle ht, List.eq_nil_of_length_eq_zero ?_⟩
    rw [halike.length, hthreads]
    rfl
  | .recruiting left =>
    rw [hphase] at h
    obtain ⟨hgrown, ht, hsum⟩ := h
    have hbegun : crew.task.begun = c.crew.task.begun := by
      rcases halike.task with htask | ⟨u, hold, hnew⟩
      · rw [htask]
      · rw [hold, hnew]
        rfl
    refine ⟨halike.grown hgrown, ht.imp hidle fun ht => hbegun.trans ht, ?_⟩
    show crew.threads.length + crew.task.begun + left = concurrency
    rw [halike.length, hbegun, hsum]
  | .entering =>
    rw [hphase] at h
    exact ⟨halike.grown h.1, hidle h.2.1, halike.length.trans h.2.2⟩
  | .deciding _ =>
    rw [hphase] at h
    exact ⟨halike.grown h.1, hidle h.2.1, halike.length.trans h.2.2.1, h.2.2.2⟩
  | .ticking _ _ =>
    rw [hphase] at h
    obtain ⟨hgrown, hnobody, hall, htimed⟩ := h
    refine ⟨halike.grown hgrown, ?_, halike.length.trans hall, htimed⟩
    show crew.task.FindsNobody crew.live
    have htask : crew.task = c.crew.task := by
      rcases halike.task with htask | ⟨u, hold, -⟩
      · exact htask
      · rw [hold] at hnobody
        exact hnobody.elim
    rw [halike.live, htask]
    exact hnobody
  | .scaling _ _ _ | .joining _ false =>
    rw [hphase] at h
    exact h.elim
  | .closing | .telling _ | .joining _ true =>
    rw [hphase] at h
    exact ⟨hquiet h.1, halike.length.trans_le h.2.1, h.2.2.imp_right hmanned⟩
  | .reporting =>
    rw [hphase] at h
    exact ⟨hquiet h.1, hmanned h.2⟩
  | .ended _ =>
    rw [hphase] at h
    obtain ⟨hq, hm, hspawned, hpeak, hinterrupted⟩ := h
    refine ⟨hquiet hq, hmanned hm, hspawned.trans halike.spawned.symm,
      hpeak.trans halike.peak.symm, ?_⟩
    rw [hinterrupted, Crew.interrupted, Crew.interrupted, halike.reports]
  | .failed =>
    rw [hphase] at h
    exact ⟨hquiet h.1, halike.length.trans_le h.2.1, h.2.2⟩
  | .crashed =>
    rw [hphase] at h
    exact ⟨hquiet h.1, halike.length.trans_le h.2⟩

/-- Only an abort cuts a control pause short. -/
theorem isCut_of_going (c : Controller) (now : Span) : c.isCut now false = false := by
  rw [isCut]
  split
  · rename_i p loop hphase
    have hgoing : (p.step now false == .ends false) = false :=
      beq_false_of_ne fun hnext => by cases Pause.aborted_of_ends hnext
    rw [hgoing, Bool.and_false]
  · rfl

/-- A constant number of users shares no budget. -/
theorem Steps.budget_of_constant
    (hx : c.post.scenario.executor = .constantConcurrency concurrency duration)
    (h : c.budget = none) (hst : c.Steps w now c' e) : c'.budget = none := by
  cases hst with
  | acts _ ha =>
    cases ha with
    | startsFixed _ _ _ hx' =>
      rw [hx] at hx'
      cases hx'
    | joinedAll last => cases last <;> exact h
    | breaks _ _ last => cases last <;> exact h
    | _ => exact h
  | _ => exact h

/-! ## As long as all users are there -/

/-- Whether all users are started and the end of the time was not seen yet. -/
def isManned (c : Controller) : Bool :=
  match c.phase with
  | .recruiting left => left == 0 && c.crew.isIdle
  | .entering | .deciding _ | .ticking _ _ => true
  | _ => false

/-- Then nobody is about to be started, and nobody was found to be gone. -/
theorem Mans.of_isManned (h : c.Mans concurrency) (hmanned : c.isManned = true) :
    c.crew.Grown ∧ c.crew.task.FindsNobody c.crew.live ∧ c.crew.threads.length = concurrency := by
  have hnobody (hidle : c.crew.task = .none) : c.crew.task.FindsNobody c.crew.live :=
    Crew.Task.findsNobody_of_idle hidle _
  rw [Mans] at h
  rw [isManned] at hmanned
  match hphase : c.phase with
  | .recruiting left =>
    rw [hphase] at h hmanned
    obtain ⟨hgrown, -, hsum⟩ := h
    obtain ⟨hleft, hidle⟩ := Bool.and_eq_true_iff.1 hmanned
    have htask := Crew.task_of_isIdle hidle
    rw [htask, eq_of_beq hleft] at hsum
    exact ⟨hgrown, hnobody htask, hsum⟩
  | .entering =>
    rw [hphase] at h
    exact ⟨h.1, hnobody h.2.1, h.2.2⟩
  | .deciding _ =>
    rw [hphase] at h
    exact ⟨h.1, hnobody h.2.1, h.2.2.1⟩
  | .ticking _ _ =>
    rw [hphase] at h
    exact ⟨h.1, h.2.1, h.2.2.1⟩
  | .delaying _ | .starting | .scaling _ _ _ | .closing | .telling _ | .joining _ _ | .reporting
  | .ended _ | .failed | .crashed =>
    rw [hphase] at hmanned
    cases hmanned

/-- A controller is in the middle of starting a user only while it starts its first users. -/
theorem Mans.recruiting (h : c.Mans concurrency) (hbegun : c.crew.task.begun = 1) :
    ∃ left, c.phase = .recruiting left ∧ c.crew.threads.length + 1 + left = concurrency := by
  have hidle (ht : c.crew.task = .none) : False := by
    rw [ht] at hbegun
    cases hbegun
  have hquiet (hq : c.crew.task.IsQuiet) : False := by
    rcases hq with ht | ht
    · exact hidle ht
    · rw [ht] at hbegun
      cases hbegun
  rw [Mans] at h
  -- Only while users are recruited a start can have begun; elsewhere the crew is idle, looks at
  -- threads or counts down.
  match hphase : c.phase with
  | .recruiting left =>
    rw [hphase, hbegun] at h
    exact ⟨left, rfl, h.2.2⟩
  | .ticking _ _ =>
    rw [hphase] at h
    have htask := h.2.1
    match hbusy : c.crew.task with
    | .addsActive _ | .addsRunning _ | .raisesPeak _ _ | .addsSpawned _ | .launches _
    | .dropsNewActive | .dropsNewRunning =>
      rw [hbusy] at htask
      exact htask.elim
    | .none | .dropsActive | .inspects _ _ _ _ | .joins _ _ =>
      rw [hbusy] at hbegun
      cases hbegun
  | .delaying _ | .starting | .entering | .deciding _ =>
    rw [hphase] at h
    exact (hidle h.2.1).elim
  | .scaling _ _ _ | .joining _ false =>
    rw [hphase] at h
    exact h.elim
  | .closing | .telling _ | .joining _ true | .reporting | .ended _ | .failed | .crashed =>
    rw [hphase] at h
    exact (hquiet h.1).elim

/-- With the last one of the users all are there. -/
theorem Mans.fills (h : c.Mans concurrency) (hst : c.Steps w now c' e)
    (hbefore : c.crew.threads.length < concurrency)
    (hafter : c'.crew.threads.length = concurrency) : c'.isManned = true := by
  -- Of all that a crew does, only the launch of a thread makes the list longer.
  have hworks {crew : Crew} {o : Crew.Outcome} (hw : c.crew.Works crew o)
      (hfull : crew.threads.length = concurrency) :
      ({ c with crew } : Controller).isManned = true := by
    have hmore : crew.threads.length ≠ c.crew.threads.length := by omega
    cases hw with
    | launches u ht =>
      obtain ⟨left, hphase, hsum⟩ := h.recruiting (by rw [ht]; rfl)
      have hlength : (c.crew.launch u).threads.length = c.crew.threads.length + 1 :=
        List.length_append
      have hleft : left = 0 := by omega
      rw [isManned]
      simp only [hphase, hleft]
      rfl
    | parts roll => cases roll <;> exact absurd rfl hmore
    | joins _ _ _ _ _ hj => exact absurd (congrArg List.length (Crew.threads_join? hj)) hmore
    | _ => exact absurd rfl hmore
  cases hst with
  | acts _ ha =>
    rw [ha.threads_length] at hafter
    omega
  | works _ hw | started _ hw | joined _ _ hw => exact hworks hw hafter
  | broken _ _ _ hw =>
    have hmore := hw.change.length_le
    cases hw with
    | breaks => exact absurd hafter (Nat.ne_of_lt hbefore)
  | refused _ hw =>
    cases hw with
    | dropsNewRunning => exact absurd hafter (Nat.ne_of_lt hbefore)

/-- Until the time is over all stay, unless the arithmetic of the clock ends the controller. -/
theorem Mans.leaves (hx : c.post.scenario.executor = .constantConcurrency concurrency duration)
    (h : c.Mans concurrency) (hst : c.Steps w now c' e)
    (hminds : c.crew.task = .none → c.Minds now c') (hbefore : c.isManned = true)
    (hafter : c'.isManned ≠ true) :
    c'.phase = .crashed ∨
      ∃ deadline, c.phase = .deciding (.untilTime deadline) ∧ deadline ≤ now := by
  obtain ⟨-, hnobody, -⟩ := h.of_isManned hbefore
  have hrow := h
  rw [Mans] at hrow
  have hmanned := hbefore
  rw [isManned] at hmanned
  -- What the crew is in the middle of is a look for users that are gone.
  have hworks {crew : Crew} (hbusy : c.crew.task ≠ .none) :
      ({ c with crew } : Controller).isManned = true := by
    rw [isManned]
    match hphase : c.phase with
    | .entering | .deciding _ | .ticking _ _ => rfl
    | .recruiting left =>
      rw [hphase] at hmanned
      exact absurd (Crew.task_of_isIdle (Bool.and_eq_true_iff.1 hmanned).2) hbusy
    | .delaying _ | .starting | .scaling _ _ _ | .closing | .telling _ | .joining _ _ | .reporting
    | .ended _ | .failed | .crashed =>
      rw [hphase] at hmanned
      cases hmanned
  cases hst with
  | works hbusy | started hbusy | joined _ hbusy => exact absurd (hworks hbusy) hafter
  | broken _ _ _ hw =>
    cases hw with
    | breaks _ _ _ ht =>
      rw [ht] at hnobody
      exact hnobody.elim
  | refused _ hw =>
    cases hw with
    | dropsNewRunning ht =>
      rw [ht] at hnobody
      exact hnobody.elim
  | acts hidle ha =>
    cases ha with
    | overflows => exact .inl rfl
    | rests | awaits => exact absurd hbefore hafter
    | recruited | enters | looks | ticks | ticked => exact absurd rfl hafter
    | recruitedFixed _ _ _ hx' =>
      rw [hx] at hx'
      cases hx'
    | finishes loop hphase | finishesReaping loop hphase =>
      rw [hphase] at hrow
      obtain ⟨deadline, rfl⟩ := hrow.2.2.2
      exact .inr ⟨deadline, hphase, ((hminds hidle).finishes deadline hphase rfl).1⟩
    | aims loop _ _ hphase hd =>
      rw [hphase] at hrow
      obtain ⟨deadline, rfl⟩ := hrow.2.2.2
      rw [Loop.decide] at hd
      split at hd <;> cases hd
    | cuts p loop hphase => exact absurd rfl ((hminds hidle).ticks p loop hphase)
    | delays _ _ _ hphase | delayed _ hphase | skips _ hphase | startsNone _ hphase
    | startsFixed _ _ hphase | startsConstant _ _ hphase | startsRamp _ _ _ hphase
    | recruits _ hphase | retires _ _ _ hphase | spawns _ _ _ hphase | settles _ _ _ hphase
    | joinedAll _ hphase | joins _ _ _ _ hphase | breaks _ _ _ hphase | closes hphase
    | tells _ _ hphase | told hphase | reports hphase =>
      rw [hphase] at hmanned
      cases hmanned

/-! ## Where every thread can be started -/

/-- Whether nothing has failed, and no user has been refused its thread. -/
structure Unhindered (c : Controller) : Prop where
  broken : c.broken = false
  task : c.crew.task ≠ .dropsNewActive ∧ c.crew.task ≠ .dropsNewRunning

/-- Unless a join fails or a thread cannot be started, nothing goes wrong in a step. -/
theorem Unhindered.steps (h : c.Unhindered) (hst : c.Steps w now c' e)
    (he : ∀ i rest, e ≠ .breaks i rest) : c'.Unhindered := by
  have hworks {crew : Crew} {o : Crew.Outcome} (hw : c.crew.Works crew o) :
      ({ c with crew } : Controller).Unhindered := by
    refine ⟨h.broken, ?_⟩
    cases hw with
    | idle => exact h.task
    | dropsNewActive ht => exact absurd ht h.task.1
    | _ => exact ⟨Crew.Task.noConfusion, Crew.Task.noConfusion⟩
  cases hst with
  | acts hidle ha =>
    have hspawned := ha.spawned hidle
    refine ⟨?_, fun ht => ?_, fun ht => ?_⟩
    · cases ha with
      | breaks i rest => exact absurd rfl (he i rest)
      | joinedAll last => rw [broken_joined, h.broken]
      | _ => exact h.broken
    · rw [ht] at hspawned
      cases hspawned
    · rw [ht] at hspawned
      cases hspawned
  | works _ hw | started _ hw | joined _ _ hw => exact hworks hw
  | broken i rest => exact absurd rfl (he i rest)
  | refused _ hw =>
    cases hw with
    | dropsNewRunning ht => exact absurd ht h.task.2

end Controller

end LoadReplay
