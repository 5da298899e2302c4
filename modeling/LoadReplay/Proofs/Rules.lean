import LoadReplay.Run.Controller

/-!
# What controllers can do

One rule for each thing that a crew or its controller can do in a step: `Crew.Works` for what a crew
is in the middle of, `Controller.Acts` for a controller whose crew is idle.  A proof that something
is kept by all steps goes through the rules and does not look at the steps themselves.
-/

namespace LoadReplay

namespace Crew

/-- What comes of one step of what a crew is in the middle of. -/
inductive Works (c : Crew) : Crew → Outcome → Prop where
  | idle (h : c.task = .none) : Works c c .nothing
  | addsActive (u : User) (h : c.task = .addsActive u) :
    Works c { c with gauge := c.gauge.addActive, task := .addsRunning u } .nothing
  | addsRunning (u : User) (h : c.task = .addsRunning u) :
    Works c
      { c with
        gauge := c.gauge.addRunning
        task := .raisesPeak u (c.gauge.running + 1) } .nothing
  | raisesPeak (u : User) (running : Nat) (h : c.task = .raisesPeak u running) :
    Works c { c with gauge := c.gauge.raisePeak running, task := .addsSpawned u } .nothing
  | addsSpawned (u : User) (h : c.task = .addsSpawned u) :
    Works c { c with gauge := c.gauge.addSpawned, task := .launches u } .nothing
  | launches (u : User) (h : c.task = .launches u) : Works c (c.launch u) .started
  | dropsNewActive (h : c.task = .dropsNewActive) :
    Works c { c with gauge := c.gauge.dropActive, task := .dropsNewRunning } .nothing
  | dropsNewRunning (h : c.task = .dropsNewRunning) :
    Works c { c with gauge := c.gauge.dropRunning, task := .none } .refused
  | dropsActive (h : c.task = .dropsActive) :
    Works c { c with gauge := c.gauge.dropActive, task := .none } .nothing
  | seesGone (roll : Roll) (i : Nat) (unseen gone left : List Nat)
    (h : c.task = .inspects roll (i :: unseen) gone left) (hi : c.isExited i) :
    Works c { c with task := .inspects roll unseen (gone ++ [i]) left } .nothing
  | seesLeft (roll : Roll) (i : Nat) (unseen gone left : List Nat)
    (h : c.task = .inspects roll (i :: unseen) gone left) (hi : ¬c.isExited i) :
    Works c { c with task := .inspects roll unseen gone (left ++ [i]) } .nothing
  | parts (roll : Roll) (gone left : List Nat) (h : c.task = .inspects roll [] gone left) :
    Works c { c.setRoll roll left with task := .joins roll gone } .nothing
  | joins (roll : Roll) (i : Nat) (gone : List Nat) (c' : Crew)
    (h : c.task = .joins roll (i :: gone)) (hj : c.join? i = some c') :
    Works c { c' with task := .joins roll gone } (.joined i)
  | breaks (roll : Roll) (i : Nat) (gone : List Nat) (h : c.task = .joins roll (i :: gone))
    (hj : c.join? i = none) : Works c { c with task := .none } (.broken i gone)
  | turns (h : c.task = .joins .live []) :
    Works c { c with task := .inspects .draining c.draining [] [] } .nothing
  | ends (h : c.task = .joins .draining []) : Works c { c with task := .none } .nothing

/-- A step of what a crew is in the middle of follows the rules. -/
theorem works (c : Crew) : c.Works c.work.1 c.work.2 := by
  rw [work]
  -- The definition of the step, read case by case.
  match h : c.task with
  | .none => exact .idle h
  | .addsActive u => exact .addsActive u h
  | .addsRunning u => exact .addsRunning u h
  | .raisesPeak u running => exact .raisesPeak u running h
  | .addsSpawned u => exact .addsSpawned u h
  | .launches u => exact .launches u h
  | .dropsNewActive => exact .dropsNewActive h
  | .dropsNewRunning => exact .dropsNewRunning h
  | .dropsActive => exact .dropsActive h
  | .inspects roll (i :: unseen) gone left =>
    by_cases hi : c.isExited i
    · simp only [hi, if_true]
      exact .seesGone roll i unseen gone left h hi
    · simp only [hi]
      exact .seesLeft roll i unseen gone left h hi
  | .inspects roll [] gone left => exact .parts roll gone left h
  | .joins roll (i :: gone) =>
    match hj : c.join? i with
    | some c' =>
      simp only [hj]
      exact .joins roll i gone c' h hj
    | none =>
      simp only [hj]
      exact .breaks roll i gone h hj
  | .joins .live [] => exact .turns h
  | .joins .draining [] => exact .ends h

/-- An idle crew is in the middle of nothing. -/
theorem task_of_isIdle {c : Crew} (h : c.isIdle = true) : c.task = .none := by
  rw [isIdle] at h
  split at h
  · assumption
  · cases h

end Crew

namespace Controller

/-- A sum of spans that the next step of a controller works out lies beyond all spans. -/
inductive Overflows (now : Span) (c : Controller) : Prop where
  /-- The end of the pause before the start. -/
  | delay (length : Span) (h : c.phase = .delaying (.opening length))
    (ho : now.add? length = none)
  /-- The end of the control loop. -/
  | loop (h : c.phase = .entering) (hl : c.loop? now = none)
  /-- The end of a stage. -/
  | stage (loop : Loop) (h : c.phase = .deciding loop)
    (hd : loop.decide c.post.scenario.controlInterval now = .overflow)
  /-- The end of a control pause. -/
  | tick (length : Span) (loop : Loop) (h : c.phase = .ticking (.opening length) loop)
    (ho : now.add? length = none)

/-- What comes of one step of a controller whose crew is in the middle of nothing. -/
inductive Acts (w : Waiting) (now : Span) (c : Controller) : Controller → Effect → Prop where
  /-- Goes on with the pause before the start. -/
  | delays (p p' : Pause) (e : Effect) (h : c.phase = .delaying p)
    (he : e = .nothing ∨ ∃ d, e = .sleeps d) (hp : ∀ length, p' ≠ .opening length) :
    Acts w now c { c with phase := .delaying p' } e
  | delayed (p : Pause) (h : c.phase = .delaying p) :
    Acts w now c { c with phase := .starting } .nothing
  /-- Ends because the run was aborted before the start. -/
  | skips (p : Pause) (h : c.phase = .delaying p) :
    Acts w now c { c with phase := .ended (.notStarted c.post.scenario) } .nothing
  /-- Some span leaves the range of spans. -/
  | overflows (h : c.Overflows now) : Acts w now c { c with phase := .crashed } .nothing
  | startsNone (concurrency : Nat) (h : c.phase = .starting)
    (hx : c.post.scenario.executor = .fixedIterations 0 concurrency) :
    Acts w now c { c with began := now, phase := .closing } .nothing
  | startsFixed (iterations concurrency : Nat) (h : c.phase = .starting)
    (hx : c.post.scenario.executor = .fixedIterations iterations concurrency)
    (hpos : iterations ≠ 0) :
    Acts w now c
      { c with
        began := now
        budget := some (.full iterations)
        phase := .recruiting (recruits iterations concurrency) } .nothing
  | startsConstant (concurrency : Nat) (duration : Span) (h : c.phase = .starting)
    (hx : c.post.scenario.executor = .constantConcurrency concurrency duration) :
    Acts w now c { c with began := now, phase := .recruiting concurrency } .nothing
  | startsRamp (start : Nat) (stages : List Stage) (shape : RampShape) (h : c.phase = .starting)
    (hx : c.post.scenario.executor = .rampingConcurrency start stages shape) :
    Acts w now c { c with began := now, phase := .entering } .nothing
  | recruits (left : Nat) (h : c.phase = .recruiting (left + 1)) :
    Acts w now c { c with phase := .recruiting left }.enrol .nothing
  /-- Waits for the users of a fixed number of iterations. -/
  | recruitedFixed (iterations concurrency : Nat) (h : c.phase = .recruiting 0)
    (hx : c.post.scenario.executor = .fixedIterations iterations concurrency) :
    Acts w now c
      { c with crew := c.crew.release.1, phase := .joining c.crew.release.2 false } .nothing
  | recruited (h : c.phase = .recruiting 0)
    (hx : ∀ n k, c.post.scenario.executor ≠ .fixedIterations n k) :
    Acts w now c { c with phase := .entering } .nothing
  | enters (loop : Loop) (h : c.phase = .entering) (hl : c.loop? now = some loop) :
    Acts w now c { c with phase := .deciding loop } .nothing
  | finishes (loop : Loop) (h : c.phase = .deciding loop) :
    Acts w now c { c with phase := .closing } .nothing
  /-- Ends the loop, but looks first whose threads have exited. -/
  | finishesReaping (loop : Loop) (h : c.phase = .deciding loop) :
    Acts w now c { c with crew := c.crew.reap, phase := .closing } .nothing
  | aims (loop : Loop) (target : Nat) (pause : Span) (h : c.phase = .deciding loop)
    (hd : loop.decide c.post.scenario.controlInterval now = .goOn (some target) pause) :
    Acts w now c { c with crew := c.crew.reap, phase := .scaling target pause loop } (.aims target)
  | looks (loop : Loop) (pause : Span) (h : c.phase = .deciding loop)
    (hd : loop.decide c.post.scenario.controlInterval now = .goOn none pause) :
    Acts w now c { c with crew := c.crew.reap, phase := .ticking (.start w pause) loop } .nothing
  | retires (target : Nat) (pause : Span) (loop : Loop) (h : c.phase = .scaling target pause loop)
    (hl : target < c.crew.live.length) :
    Acts w now c { c with crew := c.crew.retireNewest } .nothing
  | spawns (target : Nat) (pause : Span) (loop : Loop) (h : c.phase = .scaling target pause loop)
    (hl : c.crew.live.length < target) (hr : c.crew.gauge.running < target) :
    Acts w now c c.enrol .nothing
  | settles (target : Nat) (pause : Span) (loop : Loop) (h : c.phase = .scaling target pause loop)
    (hl : c.crew.live.length ≤ target) :
    Acts w now c { c with phase := .ticking (.start w pause) loop } .nothing
  | ticks (p p' : Pause) (loop : Loop) (e : Effect) (h : c.phase = .ticking p loop)
    (he : e = .nothing ∨ ∃ d, e = .sleeps d) (hp : ∀ length, p' ≠ .opening length) :
    Acts w now c { c with phase := .ticking p' loop } e
  | ticked (p : Pause) (loop : Loop) (h : c.phase = .ticking p loop) :
    Acts w now c { c with phase := .deciding loop } .nothing
  /-- The run was aborted in a control pause. -/
  | cuts (p : Pause) (loop : Loop) (h : c.phase = .ticking p loop) :
    Acts w now c { c with cut := true, phase := .closing } .nothing
  | joinedAll (last : Bool) (h : c.phase = .joining [] last) :
    Acts w now c (c.joined last) .nothing
  | awaits (i : Nat) (rest : List Nat) (last : Bool) (h : c.phase = .joining (i :: rest) last)
    (hi : ¬c.crew.isExited i) : Acts w now c c .nothing
  | joins (i : Nat) (rest : List Nat) (last : Bool) (crew : Crew)
    (h : c.phase = .joining (i :: rest) last) (hi : c.crew.isExited i)
    (hj : c.crew.join? i = some crew) :
    Acts w now c { c with crew, phase := .joining rest last } (.joins i)
  | breaks (i : Nat) (rest : List Nat) (last : Bool) (h : c.phase = .joining (i :: rest) last)
    (hi : c.crew.isExited i) (hj : c.crew.join? i = none) :
    Acts w now c ({ c with broken := true }.joined last) (.breaks i rest)
  | closes (h : c.phase = .closing) :
    Acts w now c { c with phase := .telling (c.crew.live ++ c.crew.draining) } .nothing
  | tells (i : Nat) (rest : List Nat) (h : c.phase = .telling (i :: rest)) :
    Acts w now c { c with crew := c.crew.tell i, phase := .telling rest } .nothing
  | told (h : c.phase = .telling []) :
    Acts w now c
      { c with crew := c.crew.release.1, phase := .joining c.crew.release.2 true } .nothing
  | reports (h : c.phase = .reporting) :
    Acts w now c { c with phase := .ended (c.report now) } .nothing
  | rests (h : c.isOver) : Acts w now c c .nothing

variable (w : Waiting) (now : Span) (c : Controller)

/-- So does the start, for each executor, -/
theorem start_acts (h : c.phase = .starting) : c.Acts w now (c.start now) .nothing := by
  rw [start]
  match hx : c.post.scenario.executor with
  | .fixedIterations iterations concurrency =>
    by_cases hpos : iterations = 0
    · subst hpos
      exact .startsNone concurrency h hx
    · simp only [hpos, if_false]
      exact .startsFixed iterations concurrency h hx hpos
  | .constantConcurrency concurrency duration => exact .startsConstant concurrency duration h hx
  | .rampingConcurrency start stages shape => exact .startsRamp start stages shape h hx

/-- the moment when nobody is left to be started, -/
theorem recruited_acts (h : c.phase = .recruiting 0) : c.Acts w now c.recruited .nothing := by
  rw [Controller.recruited]
  match hx : c.post.scenario.executor with
  | .fixedIterations iterations concurrency => exact .recruitedFixed iterations concurrency h hx
  | .constantConcurrency _ _ => exact .recruited h fun n k hn => by simp [hx] at hn
  | .rampingConcurrency _ _ _ => exact .recruited h fun n k hn => by simp [hx] at hn

/-- a decision, -/
theorem decide_acts (loop : Loop) (h : c.phase = .deciding loop) :
    c.Acts w now (c.decide w loop now).1 (c.decide w loop now).2 := by
  rw [decide]
  match hd : loop.decide c.post.scenario.controlInterval now with
  | .overflow => exact .overflows (.stage loop h hd)
  | .finish =>
    by_cases hr : loop.reapsLast
    · simp only [hr, if_true]
      exact .finishesReaping loop h
    · simp only [hr]
      exact .finishes loop h
  | .goOn (some target) pause => exact .aims loop target pause h hd
  | .goOn none pause => exact .looks loop pause h hd

/-- a step of scaling, -/
theorem scale_acts (target : Nat) (pause : Span) (loop : Loop)
    (h : c.phase = .scaling target pause loop) :
    c.Acts w now (c.scale w target pause loop) .nothing := by
  rw [scale, Crew.adjustment]
  by_cases hl : target < c.crew.live.length
  · rw [if_pos hl]
    exact .retires target pause loop h hl
  · by_cases hs : c.crew.live.length < target ∧ c.crew.gauge.running < target
    · rw [if_neg hl, if_pos hs]
      exact .spawns target pause loop h hs.1 hs.2
    · rw [if_neg hl, if_neg hs]
      exact .settles target pause loop h (Nat.le_of_not_lt hl)

/-- and a join. -/
theorem joinNext_acts (i : Nat) (rest : List Nat) (last : Bool)
    (h : c.phase = .joining (i :: rest) last) (hi : c.crew.isExited i) :
    c.Acts w now (c.joinNext i rest last).1 (c.joinNext i rest last).2 := by
  rw [joinNext]
  match hj : c.crew.join? i with
  | some crew => exact .joins i rest last crew h hi hj
  | none => exact .breaks i rest last h hi hj

/-- A controller whose crew is idle follows the rules. -/
theorem acts (aborted : Bool) :
    c.Acts w now (c.act w now aborted).1 (c.act w now aborted).2 := by
  rw [act]
  -- The definition of the step, phase by phase; loops and joins have lemmas of their own.
  match h : c.phase with
  | .delaying p =>
    show c.Acts w now (c.delayNext (p.step now aborted)).1 (c.delayNext (p.step now aborted)).2
    match hn : p.step now aborted with
    | .goesOn p' => exact .delays p p' _ h (.inl rfl) fun _ => Pause.ne_opening_of_step _ (.inl hn)
    | .sleeps d p' =>
      exact .delays p p' _ h (.inr ⟨d, rfl⟩) fun _ => Pause.ne_opening_of_step _ (.inr ⟨d, hn⟩)
    | .ends true => exact .delayed p h
    | .ends false => exact .skips p h
    | .overflows =>
      obtain ⟨length, rfl, ho⟩ := Pause.opening_of_overflows hn
      exact .overflows (.delay length h ho)
  | .starting => exact c.start_acts w now h
  | .recruiting 0 => exact c.recruited_acts w now h
  | .recruiting (left + 1) => exact .recruits left h
  | .entering =>
    match hl : c.loop? now with
    | none => exact .overflows (.loop h hl)
    | some loop => exact .enters loop h hl
  | .deciding loop => exact c.decide_acts w now loop h
  | .scaling target pause loop => exact c.scale_acts w now target pause loop h
  | .ticking p loop =>
    show c.Acts w now (c.tickNext loop (p.step now aborted)).1
      (c.tickNext loop (p.step now aborted)).2
    match hn : p.step now aborted with
    | .goesOn p' =>
      exact .ticks p p' loop _ h (.inl rfl) fun _ => Pause.ne_opening_of_step _ (.inl hn)
    | .sleeps d p' =>
      exact .ticks p p' loop _ h (.inr ⟨d, rfl⟩) fun _ => Pause.ne_opening_of_step _ (.inr ⟨d, hn⟩)
    | .ends true => exact .ticked p loop h
    | .ends false => exact .cuts p loop h
    | .overflows =>
      obtain ⟨length, rfl, ho⟩ := Pause.opening_of_overflows hn
      exact .overflows (.tick length loop h ho)
  | .joining [] last => exact .joinedAll last h
  | .joining (i :: rest) last =>
    by_cases hi : c.crew.isExited i
    · simp only [hi, if_true]
      exact c.joinNext_acts w now i rest last h hi
    · simp only [hi]
      exact .awaits i rest last h hi
  | .closing => exact .closes h
  | .telling (i :: rest) => exact .tells i rest h
  | .telling [] => exact .told h
  | .reporting => exact .reports h
  | .ended _ | .failed | .crashed => exact .rests (by simp [isOver, h])

/-- What comes of a step of a controller. -/
inductive Steps : Controller → Effect → Prop where
  | acts {c' : Controller} {e : Effect} (h : c.crew.task = .none) (ha : c.Acts w now c' e) :
    Steps c' e
  | works {crew : Crew} (h : c.crew.task ≠ .none) (hw : c.crew.Works crew .nothing) :
    Steps { c with crew } .nothing
  | started {crew : Crew} (h : c.crew.task ≠ .none) (hw : c.crew.Works crew .started) :
    Steps { c with crew } .spawns
  | joined {crew : Crew} (i : Nat) (h : c.crew.task ≠ .none)
    (hw : c.crew.Works crew (.joined i)) : Steps { c with crew } (.joins i)
  | broken {crew : Crew} (i : Nat) (rest : List Nat) (h : c.crew.task ≠ .none)
    (hw : c.crew.Works crew (.broken i rest)) :
    Steps { c with crew, broken := true, phase := .closing } (.breaks i rest)
  | refused {crew : Crew} (h : c.crew.task ≠ .none) (hw : c.crew.Works crew .refused) :
    Steps { c with crew, broken := true, phase := .closing } .nothing

/-- A controller follows the rules. -/
theorem steps (aborted : Bool) :
    c.Steps w now (c.step w now aborted).1 (c.step w now aborted).2 := by
  rw [step]
  split
  · rename_i h
    exact .acts (Crew.task_of_isIdle h) (c.acts w now aborted)
  · rename_i h
    have h : c.crew.task ≠ .none := fun hn => h (by rw [Crew.isIdle, hn])
    have hw := c.crew.works
    rw [work]
    match c.crew.work, hw with
    | (_, .nothing), hw => exact .works h hw
    | (_, .started), hw => exact .started h hw
    | (_, .joined i), hw => exact .joined i h hw
    | (_, .broken i rest), hw => exact .broken i rest h hw
    | (_, .refused), hw => exact .refused h hw

end Controller

end LoadReplay
