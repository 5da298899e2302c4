import LoadReplay.Proofs.Befalls
import LoadReplay.Proofs.FixedCrew
import Mathlib.Algebra.BigOperators.Fin
import Mathlib.Algebra.Order.BigOperators.Group.Finset

/-!
# A fixed number of iterations is replayed exactly

The users of a scenario share a number of iterations.  Each claim takes one of them, whatever the
order of all steps, so that together the users complete as many as there are unless an abort cuts
some short (`Scene.fixed_exact`).
-/

namespace LoadReplay

namespace Scene

variable {iterations concurrency : Nat} {w : Waiting} {s s' : Scene}

/-- How many iterations are claimed from the budget. -/
def claimed (s : Scene) : Nat := (s.controller.budget.map Budget.claimed).getD 0

/-- What holds all the time of a scenario whose users share a number of iterations. -/
structure SharesBudget (iterations concurrency : Nat) (s : Scene) : Prop where
  shares : s.controller.Shares iterations concurrency
  funded : s.crew.threads ≠ [] → s.controller.budget ≠ none
  total : ∀ b, s.controller.budget = some b → b.total = iterations
  claimed : s.claimed = s.claimers.length
  /-- A user that goes on is only told to retire if others are missing. -/
  retired : ∀ (i : Nat) (t : Thread), s.crew.threads[i]? = some t → t.retired = true →
    t.user.isOver = true ∨ s.controller.FellShort iterations concurrency
  /-- A user that ended by itself found no iteration left, or was told to retire. -/
  finished : ∀ (i : Nat) (t : Thread), s.crew.threads[i]? = some t →
    t.user.phase = .ended false →
    s.controller.grants = false ∨ s.controller.FellShort iterations concurrency

/-! ## Steps of the controller -/

/-- Nobody has claimed anything as long as nobody is there. -/
theorem claimers_eq_nil (h : s.Kept) (ht : s.crew.threads = []) : s.claimers = [] := by
  refine List.eq_nil_iff_forall_not_mem.2 fun i hi => ?_
  have hlt := h.claimers i hi
  rw [ht] at hlt
  exact Nat.not_lt_zero i hlt

/-- The shares are kept by each step of the controller: when it makes the budget, nobody has claimed
anything. -/
theorem SharesBudget.stepController (h : s.SharesBudget iterations concurrency)
    (hx : s.controller.post.scenario.executor = .fixedIterations iterations concurrency)
    (hkept : s.Kept) (now : Span) :
    (s.stepController w now).SharesBudget iterations concurrency := by
  have hst := s.controller.steps w now s.aborted
  have hbudget := h.shares.budget hx hst
  have hshort (hs : s.controller.FellShort iterations concurrency) :
      (s.stepController w now).controller.FellShort iterations concurrency :=
    hs.steps h.shares hst
  refine ⟨h.shares.steps hx hst, fun hne => ?_, fun b hb => ?_, ?_, fun i t' ht' hr => ?_,
    fun i t' ht' hphase => ?_⟩
  · rcases hbudget with hb | ⟨-, -, hb⟩
    · show (s.controller.step w now s.aborted).1.budget ≠ none
      rw [hb]
      rcases hst.change with hthreads | ⟨i, hthreads⟩ | ⟨u, htask, -⟩
      · exact h.funded fun hnil => hne (hthreads.trans hnil)
      · refine h.funded fun hnil => hne (hthreads.trans ?_)
        show s.crew.threads.modify i _ = []
        rw [hnil]
        exact List.modify_nil ..
      · exact (h.shares.of_launches htask).2
    · show (s.controller.step w now s.aborted).1.budget ≠ none
      rw [hb]
      exact Option.some_ne_none _
  · replace hb : (s.controller.step w now s.aborted).1.budget = some b := hb
    rcases hbudget with hsame | ⟨-, -, hfull⟩
    · exact h.total b (by rw [← hsame, hb])
    · rw [hfull, Option.some.injEq] at hb
      rw [← hb]
      rfl
  · rw [claimers_stepController, ← h.claimed]
    show ((s.controller.step w now s.aborted).1.budget.map Budget.claimed).getD 0 = _
    rcases hbudget with hsame | ⟨hnil, -, hfull⟩
    · rw [hsame]
      rfl
    · -- The budget is opened while there is nobody who could have claimed from it.
      rw [h.claimed, claimers_eq_nil hkept hnil, hfull]
      exact Nat.sub_self iterations
  · rcases h.shares.retired hst ht' hr with ht | hs
    · exact (h.retired i t' ht hr).imp_right hshort
    · exact .inr (hshort hs)
  · rcases hst.change.thread ht' with ⟨t, ht, huser, -⟩ | ⟨u, htask, rfl, rfl⟩
    · refine (h.finished i t ht (by rw [← huser, hphase])).imp (fun hg => ?_) hshort
      rcases hbudget with hsame | ⟨hnil, -, -⟩
      · show (s.controller.step w now s.aborted).1.grants = false
        rw [Controller.grants, hsame]
        exact hg
      · rw [hnil] at ht
        cases ht
    · have hnew := hkept.welcomes u (by rw [htask]; rfl)
      rw [hnew] at hphase
      cases hphase

/-! ## Steps of the users -/

/-- What happens to the crew alone, and ends no user but by an error or an abort. -/
theorem SharesBudget.of_crew (h : s.SharesBudget iterations concurrency)
    (hcontroller : s'.controller = { s.controller with crew := s'.crew })
    (hlog : s'.log = s.log)
    (htask : s'.crew.task = s.crew.task ∨ s.crew.task.begun = 1 ∧ s'.crew.task.begun = 1)
    (hlive : s'.crew.live = s.crew.live) (hdraining : s'.crew.draining = s.crew.draining)
    (hlen : s'.crew.threads.length = s.crew.threads.length)
    (hthreads : ∀ (i : Nat) (t' : Thread), s'.crew.threads[i]? = some t' →
      ∃ t, s.crew.threads[i]? = some t ∧
        (t'.retired = true → t.retired = true ∨ t'.user.isOver = true) ∧
        (t.user.isOver = true → t'.user.isOver = true) ∧
        (t'.user.phase = .ended false → t.user.phase = .ended false)) :
    s'.SharesBudget iterations concurrency := by
  have hbudget : s'.controller.budget = s.controller.budget := by rw [hcontroller]
  have hshort (hs : s.controller.FellShort iterations concurrency) :
      s'.controller.FellShort iterations concurrency := by
    rw [hcontroller]
    exact hs.of_crew hlen
  -- Budget and log are as before, so each part of the invariant is carried over by itself.
  refine ⟨?_, fun hne => ?_, fun b hb => ?_, ?_, fun i t' ht' hr => ?_, fun i t' ht' hphase => ?_⟩
  · rw [hcontroller]
    exact h.shares.of_crew htask hlive hdraining hlen id
  · rw [hbudget]
    refine h.funded fun hnil => hne (List.eq_nil_of_length_eq_zero ?_)
    rw [hlen, hnil]
    rfl
  · exact h.total b (by rw [← hbudget, hb])
  · rw [Scene.claimed, hbudget, claimers, hlog]
    exact h.claimed
  · obtain ⟨t, ht, hretired, hover, -⟩ := hthreads i t' ht'
    rcases hretired hr with hr | hend
    · exact (h.retired i t ht hr).imp hover hshort
    · exact .inl hend
  · obtain ⟨t, ht, -, -, hended⟩ := hthreads i t' ht'
    refine (h.finished i t ht (hended hphase)).imp (fun hg => ?_) hshort
    rw [Controller.grants, hbudget]
    exact hg

/-- They are kept when a thread cannot be started. -/
theorem SharesBudget.refuse (h : s.SharesBudget iterations concurrency) :
    (s.modifyCrew (·.refuse)).SharesBudget iterations concurrency := by
  have hkeeps : ∀ (i : Nat) (t' : Thread), s.crew.threads[i]? = some t' →
      ∃ t, s.crew.threads[i]? = some t ∧
        (t'.retired = true → t.retired = true ∨ t'.user.isOver = true) ∧
        (t.user.isOver = true → t'.user.isOver = true) ∧
        (t'.user.phase = .ended false → t.user.phase = .ended false) :=
    fun i t' ht' => ⟨t', ht', .inl, id, id⟩
  rcases s.crew.refuse_cases with hr | ⟨u, htask, hr⟩ <;> rw [modifyCrew, hr]
  · exact h.of_crew rfl rfl (.inl rfl) rfl rfl rfl hkeeps
  · exact h.of_crew rfl rfl (.inr ⟨by rw [htask]; rfl, rfl⟩) rfl rfl rfl hkeeps

/-- They are kept when a thread goes on its way out. -/
theorem SharesBudget.leave (h : s.SharesBudget iterations concurrency) {i : Nat}
    (hi : s.user? i = none) :
    (s.modifyCrew (·.leave i)).SharesBudget iterations concurrency := by
  obtain ⟨htask, hlive, hdraining⟩ := s.crew.task_leave i
  refine h.of_crew rfl rfl (.inl htask) hlive hdraining (s.crew.length_leave i) fun j t' ht' => ?_
  obtain ⟨t, ht, rfl⟩ := Crew.thread_leave.1 ht'
  refine ⟨t, ht, ?_⟩
  split
  · rename_i hij
    subst hij
    rw [Thread.user_leave]
    exact ⟨fun _ => .inr (isOver_of_user? hi ht), id, id⟩
  · exact ⟨.inl, id, id⟩

/-- They are kept if a user is changed that is not sent home by it. -/
theorem SharesBudget.modifyUser (h : s.SharesBudget iterations concurrency) {i : Nat}
    {f : User → User} (hover : ∀ u : User, u.isOver = true → (f u).isOver = true)
    (hended : ∀ u : User, (f u).phase = .ended false → u.phase = .ended false) :
    (s.modifyUser i f).SharesBudget iterations concurrency := by
  refine h.of_crew rfl rfl (.inl rfl) rfl rfl (s.length_modifyUser i f) fun j t' ht' => ?_
  obtain ⟨t, ht, rfl⟩ := thread_modifyUser.1 ht'
  refine ⟨t, ht, ?_⟩
  split
  · exact ⟨.inl, hover t.user, hended t.user⟩
  · exact ⟨.inl, id, id⟩

/-- They are kept when a user is answered. -/
theorem SharesBudget.reply (h : s.SharesBudget iterations concurrency) (i : Nat) (r : Reply) :
    (s.modifyUser i (·.receive r)).SharesBudget iterations concurrency := by
  refine h.modifyUser (fun u hover => ?_) fun u hphase => ?_
  · rwa [receive_of_isOver hover]
  · rcases u.phase_receive r with hover | ⟨-, hcut⟩ | hsame
    · rw [User.isOver, hphase] at hover
      cases hover
    · rw [hphase] at hcut
      cases hcut
    · rwa [hsame] at hphase

/-- A step of a user takes one iteration from the budget if the user claims one, and nothing
otherwise. -/
theorem budget_stepUser (i : Nat) (now : Span) (t : Thread) (hb : s.controller.budget ≠ none) :
    (s.turn w now t).2.claimed = 0 ∧
        (s.stepUser w i now t).controller.budget = s.controller.budget ∨
      (s.turn w now t).2.claimed = 1 ∧ ∃ b b', s.controller.budget = some b ∧
        b.claim? = some b' ∧ (s.stepUser w i now t).controller.budget = some b' := by
  have happly : (s.stepUser w i now t).controller.budget =
      ((s.modifyUser i fun _ => (s.turn w now t).1).apply
        (s.turn w now t).2).controller.budget := rfl
  match he : (s.turn w now t).2 with
  | .claims =>
    rw [he] at happly
    have hgranted : s.controller.grants = true := User.granted_of_claims he
    obtain ⟨b, hsome⟩ := Option.ne_none_iff_exists'.1 hb
    rw [Controller.grants, hsome, Option.all_some, Option.isSome_iff_exists] at hgranted
    obtain ⟨b', hclaim⟩ := hgranted
    refine .inr ⟨rfl, b, b', hsome, hclaim, ?_⟩
    rw [happly]
    show s.controller.budget.bind (·.claim?) = _
    rw [hsome, Option.bind_some, hclaim]
  | .nothing | .sleeps _ | .sends _ | .records _ =>
    rw [he] at happly
    exact .inl ⟨rfl, happly⟩

/-- They are kept by each step of a user: what it claims is taken off the budget. -/
theorem SharesBudget.stepUser (h : s.SharesBudget iterations concurrency) {i : Nat} {t : Thread}
    (hi : s.user? i = some t) (now : Span) :
    (s.stepUser w i now t).SharesBudget iterations concurrency := by
  obtain ⟨ht, hover⟩ := user?_eq_some hi
  have hu := usersMoved_stepUser w hi now
  have hne : s.crew.threads ≠ [] := by
    intro hnil
    rw [hnil] at ht
    cases ht
  have hbudget := budget_stepUser (w := w) i now t (h.funded hne)
  have hsome : (s.stepUser w i now t).controller.budget ≠ none := by
    rcases hbudget with ⟨-, hb⟩ | ⟨-, _, _, -, -, hb⟩ <;> rw [hb]
    · exact h.funded hne
    · exact Option.some_ne_none _
  have hgrants (hg : s.controller.grants = false) :
      (s.stepUser w i now t).controller.grants = false := by
    rcases hbudget with ⟨-, hb⟩ | ⟨-, b, b', hb, hclaim, -⟩
    · rwa [Controller.grants, hb]
    · rw [Controller.grants, hb, Option.all_some, hclaim] at hg
      cases hg
  have hshort (hs : s.controller.FellShort iterations concurrency) :
      (s.stepUser w i now t).controller.FellShort iterations concurrency := by
    rw [hu.controller]
    exact hs.of_crew hu.length
  refine ⟨?_, fun _ => hsome, fun b hb => ?_, ?_, fun j t' ht' hr => ?_,
    fun j t' ht' hphase => ?_⟩
  · rw [hu.controller]
    exact h.shares.of_crew (.inl hu.task) hu.live hu.draining hu.length fun _ => hsome
  · rcases hbudget with ⟨-, hsame⟩ | ⟨-, b₀, b₁, hb₀, hclaim, hb₁⟩
    · exact h.total b (by rw [← hsame, hb])
    · rw [hb₁, Option.some.injEq] at hb
      rw [← hb, (Budget.claim?_eq_some hclaim).1]
      exact h.total b₀ hb₀
  · have hclaimed := h.claimed
    rw [claimers_stepUser, List.length_append, List.length_replicate, ← hclaimed, Scene.claimed,
      Scene.claimed]
    rcases hbudget with ⟨hzero, hsame⟩ | ⟨hone, b₀, b₁, hb₀, hclaim, hb₁⟩
    · rw [hzero, hsame, Nat.add_zero]
    · rw [hone, hb₀, hb₁]
      exact (Budget.claim?_eq_some hclaim).2
  · rw [crew_stepUser] at ht'
    obtain ⟨t₀, ht₀, rfl⟩ := thread_modifyUser.1 ht'
    by_cases hij : i = j
    · subst hij
      rw [ht, Option.some.injEq] at ht₀
      subst ht₀
      rw [if_pos rfl] at hr
      rcases h.retired i t ht hr with hend | hs
      · rw [hover] at hend
        cases hend
      · exact .inr (hshort hs)
    · rw [if_neg hij] at hr ⊢
      exact (h.retired j t₀ ht₀ hr).imp_right hshort
  · rw [crew_stepUser] at ht'
    obtain ⟨t₀, ht₀, rfl⟩ := thread_modifyUser.1 ht'
    by_cases hij : i = j
    · subst hij
      rw [ht, Option.some.injEq] at ht₀
      subst ht₀
      rw [if_pos rfl] at hphase
      -- What the user saw of the budget is what the budget is: its step is not divided.
      rcases User.ends_of_step hover hphase with hr | hg
      · rcases h.retired i t ht hr with hend | hs
        · rw [hover] at hend
          cases hend
        · exact .inr (hshort hs)
      · exact .inl (hgrants hg)
    · rw [if_neg hij] at hphase
      exact (h.finished j t₀ ht₀ hphase).imp hgrants hshort

/-- Whatever happens, the users share the budget. -/
theorem SharesBudget.next (h : s.SharesBudget iterations concurrency)
    (hx : s.controller.post.scenario.executor = .fixedIterations iterations concurrency)
    (hkept : s.Kept) (choice : Choice) :
    (s.next w choice).SharesBudget iterations concurrency := by
  cases choice with
  | abort =>
    exact h.of_crew rfl rfl (.inl rfl) rfl rfl rfl fun i t' ht' => ⟨t', ht', .inl, id, id⟩
  | controller now => exact h.stepController hx hkept now
  | refuse => exact h.refuse
  | user i now =>
    rw [Scene.next]
    cases hi : s.user? i with
    | none => exact h
    | some t => exact h.stepUser hi now
  | reply i reply => exact h.reply i reply
  | crash i =>
    rw [Scene.next]
    cases s.user? i with
    | none => exact h
    | some t => exact h.modifyUser (fun _ _ => rfl) fun _ hphase => by cases hphase
  | leave i =>
    rw [Scene.next]
    cases hi : s.user? i with
    | none => exact h.leave hi
    | some t => exact h

/-- At first there is no budget, and nobody to share it. -/
theorem sharesBudget_start (w : Waiting) (gens : Nat → Random.Generator) (post : Post)
    (iterations concurrency : Nat) :
    (Scene.start w gens post).SharesBudget iterations concurrency := by
  refine ⟨?_, fun hne => absurd rfl hne, fun b hb => (by cases hb), rfl,
    fun i t ht => (by cases ht), fun i t ht => (by cases ht)⟩
  rw [start, Controller.new, Controller.Shares]
  cases post.scenario.startTime.isZero <;> exact ⟨rfl, rfl, ⟨rfl, rfl⟩, rfl⟩

/-- **The shares are kept in every run.** -/
theorem sharesBudget_run (w : Waiting) (gens : Nat → Random.Generator) (post : Post)
    (hx : post.scenario.executor = .fixedIterations iterations concurrency)
    (choices : List Choice) :
    ((Scene.start w gens post).run w choices).SharesBudget iterations concurrency := by
  have hrun := run_induction w
    (p := fun s => s.controller.post = post ∧ s.Kept ∧ s.SharesBudget iterations concurrency)
    (s := Scene.start w gens post)
    ⟨rfl, kept_run w gens post [], sharesBudget_start w gens post iterations concurrency⟩
    (fun s choice h => ⟨by rw [next_post, h.1], h.2.1.next choice,
      h.2.2.next (by rw [h.1, hx]) h.2.1 choice⟩) choices
  exact hrun.2.2

/-! ## Sums over all users -/

/-- How many iterations the users completed, those that have not ended included. -/
def completed (s : Scene) : Nat := (s.crew.threads.map (·.user.iterations)).sum

/-- What the users did that have ended, but not by an error. -/
def reports (s : Scene) : List UserReport := s.crew.threads.filterMap (·.user.report?)

/-- How many iterations the users report. -/
def reported (s : Scene) : Nat := (s.reports.map (·.iterations)).sum

/-- Whether an abort stopped a user within an iteration: it claimed more iterations than it
completed. -/
def isMidway (s : Scene) (i : Nat) : Bool :=
  s.crew.threads[i]?.any fun t =>
    t.user.report?.any (·.interrupted) && decide (t.user.iterations < s.claimers.count i)

/-- The users that an abort stopped within an iteration. -/
def midway (s : Scene) : Finset Nat := (Finset.range s.crew.threads.length).filter (s.isMidway ·)

/-- Counting a list by its items. -/
theorem length_eq_sum_count {l : List Nat} {n : Nat} (h : ∀ i ∈ l, i < n) :
    l.length = ∑ i : Fin n, l.count i.1 := by
  rw [← Finset.sum_range (fun i => l.count i)]
  have hsum := Multiset.sum_count_eq_card (m := (l : Multiset Nat)) (s := Finset.range n)
    fun i hi => Finset.mem_range.2 (h i hi)
  simpa using hsum.symm

/-- The completed iterations are those of the users, one after another. -/
theorem completed_eq (s : Scene) :
    s.completed = ∑ i : Fin s.crew.threads.length, s.crew.threads[i.1].user.iterations :=
  (Fin.sum_univ_fun_getElem s.crew.threads (·.user.iterations)).symm

/-- What is written down agrees with each user. -/
theorem Kept.agrees_getElem (h : s.Kept) (i : Fin s.crew.threads.length) :
    s.Agrees i s.crew.threads[i.1].user :=
  h.agrees i _ (List.getElem?_eq_getElem i.2)

/-- An iteration that was completed was claimed before. -/
theorem Kept.completed_le (h : s.Kept) : s.completed ≤ s.claimers.length := by
  rw [completed_eq, length_eq_sum_count h.claimers]
  exact Finset.sum_le_sum fun i _ => (h.agrees_getElem i).bounds.1

/-- No more is claimed than the budget has had. -/
theorem SharesBudget.claimed_le (h : s.SharesBudget iterations concurrency) :
    s.claimed ≤ iterations := by
  rw [Scene.claimed]
  match hb : s.controller.budget with
  | none => exact Nat.zero_le _
  | some b =>
    rw [← h.total b hb]
    exact Nat.sub_le _ _

/-- What is not reported was completed by the users that have no report. -/
theorem completed_eq_reported (s : Scene) :
    s.completed = s.reported +
      ((s.crew.threads.filter (·.user.report?.isNone)).map (·.user.iterations)).sum := by
  rw [completed, reported, reports]
  induction s.crew.threads with
  | nil => rfl
  | cons t rest ih =>
    rw [List.map_cons, List.sum_cons, ih, List.filterMap_cons, List.filter_cons]
    match hr : t.user.report? with
    | none =>
      simp only [Option.isNone_none, if_true, List.map_cons, List.sum_cons]
      omega
    | some r =>
      have hiterations := (User.report?_eq_some.1 hr).2
      simp only [Option.isNone_some, Bool.false_eq_true, if_false, List.map_cons, List.sum_cons]
      omega

/-- When all users have ended, their reports hold all completed iterations. -/
theorem completed_eq_reported_of_ended (h : ∀ t ∈ s.crew.threads, t.user.report?.isSome) :
    s.completed = s.reported := by
  have hnone : s.crew.threads.filter (·.user.report?.isNone) = [] := by
    refine List.filter_eq_nil_iff.2 fun t ht hn => ?_
    rw [Option.isNone_iff_eq_none] at hn
    have hsome := h t ht
    rw [hn] at hsome
    cases hsome
  rw [completed_eq_reported, hnone]
  rfl

/-- The reports are those of the users that have ended. -/
theorem mem_reports {r : UserReport} :
    r ∈ s.reports ↔ ∃ t ∈ s.crew.threads, t.user.report? = some r :=
  List.mem_filterMap

/-- Without an abort and without cancelled requests nobody reports an interruption. -/
theorem interrupted_reports (w : Waiting) (gens : Nat → Random.Generator) (post : Post)
    {choices : List Choice} (hs : ((start w gens post).run w choices).aborted = false)
    (hcancelled : ∀ i, .reply i .cancelled ∉ choices) :
    ∀ r ∈ ((start w gens post).run w choices).reports, r.interrupted = false := by
  intro r hr
  obtain ⟨t, ht, hreport⟩ := mem_reports.1 hr
  obtain ⟨i, hi⟩ := List.mem_iff_getElem?.1 ht
  obtain ⟨hphase, -⟩ := User.report?_eq_some.1 hreport
  cases hcut : r.interrupted with
  | false => rfl
  | true =>
    rw [hcut] at hphase
    rcases interrupted_start w gens post choices hi hphase with haborted | hmem
    · rw [haborted] at hs
      cases hs
    · exact absurd hmem (hcancelled i)

/-- A user that has ended claimed the iterations that it completed, and one more if an abort stopped
it within one. -/
theorem Kept.count_claimers (h : s.Kept) (i : Fin s.crew.threads.length)
    (hended : s.crew.threads[i.1].user.report?.isSome) :
    s.claimers.count i.1 =
      s.crew.threads[i.1].user.iterations + if s.isMidway i then 1 else 0 := by
  have haccount := h.agrees_getElem i
  obtain ⟨r, hr⟩ := Option.isSome_iff_exists.1 hended
  obtain ⟨hphase, -⟩ := User.report?_eq_some.1 hr
  have hmidway : s.isMidway i = (r.interrupted &&
      decide (s.crew.threads[i.1].user.iterations < s.claimers.count i.1)) := by
    rw [isMidway, List.getElem?_eq_getElem i.2, Option.any_some, hr, Option.any_some]
  rw [hmidway]
  cases hcut : r.interrupted with
  | false =>
    rw [hcut] at hphase
    rw [Agrees, User.Account, hphase] at haccount
    exact haccount.1
  | true =>
    have hbounds := haccount.bounds
    by_cases hlt : s.crew.threads[i.1].user.iterations < s.claimers.count i.1
    · simp only [hlt, decide_true, Bool.and_self, if_true]
      omega
    · simp only [hlt, decide_false, Bool.and_false]
      show _ = _ + 0
      omega

/-- When all users have ended, an iteration that was claimed was completed, or an abort stopped a
user within it. -/
theorem Kept.length_claimers (h : s.Kept)
    (hended : ∀ t ∈ s.crew.threads, t.user.report?.isSome) :
    s.claimers.length = s.reported + s.midway.card := by
  have hcard : s.midway.card =
      ∑ i : Fin s.crew.threads.length, if s.isMidway i then 1 else 0 := by
    rw [midway, Finset.card_filter, Finset.sum_range]
  rw [length_eq_sum_count h.claimers, hcard, ← completed_eq_reported_of_ended hended, completed_eq,
    ← Finset.sum_add_distrib]
  exact Finset.sum_congr rfl fun i _ => h.count_claimers i (hended _ (List.getElem_mem i.2))

/-- When no user was interrupted, each iteration that was completed recorded all its requests. -/
theorem Kept.length_recorders (h : s.Kept)
    (hended : ∀ t ∈ s.crew.threads, t.user.phase = .ended false) :
    s.recorders.length = s.completed * s.controller.post.size := by
  rw [length_eq_sum_count h.recorders, completed_eq, Finset.sum_mul]
  refine Finset.sum_congr rfl fun i _ => ?_
  have haccount := h.agrees_getElem i
  rw [Agrees, User.Account, hended _ (List.getElem_mem i.2)] at haccount
  exact haccount.2

/-- When no iteration is left, all of them are claimed. -/
theorem SharesBudget.claimed_of_not_grants (h : s.SharesBudget iterations concurrency)
    (hg : s.controller.grants = false) : s.claimed = iterations := by
  rw [Controller.grants] at hg
  rw [Scene.claimed]
  match hb : s.controller.budget with
  | none =>
    rw [hb] at hg
    cases hg
  | some b =>
    rw [hb, Option.all_some, Option.isSome_eq_false_iff, Option.isNone_iff_eq_none,
      Budget.claim?] at hg
    have hzero : b.remaining = 0 := by
      by_contra hne
      rw [if_neg hne] at hg
      cases hg
    show b.total - b.remaining = iterations
    rw [hzero, h.total b hb]
    exact Nat.sub_zero iterations

/-- If no user is missing and none was interrupted, no iteration is left in the end. -/
theorem SharesBudget.claimed_eq (h : s.SharesBudget iterations concurrency)
    (hpos : 0 < concurrency)
    (hall : s.crew.threads.length = min iterations concurrency)
    (hended : ∀ t ∈ s.crew.threads, t.user.phase = .ended false) : s.claimed = iterations := by
  rcases Nat.eq_zero_or_pos iterations with hzero | hn
  · have hle := h.claimed_le
    omega
  · have hlt : 0 < s.crew.threads.length := by
      rw [hall]
      exact Nat.lt_min.2 ⟨hn, hpos⟩
    -- The first user has ended by itself, and with no user missing it was not told to.
    have hphase := hended _ (List.getElem_mem hlt)
    rcases h.finished 0 _ (List.getElem?_eq_getElem hlt) hphase with hg | hs
    · exact h.claimed_of_not_grants hg
    · have := hs.2
      rw [show s.controller.crew.threads.length = _ from hall, Controller.recruits] at this
      exact absurd this (Nat.lt_irrefl _)

/-- **A fixed number of iterations is replayed exactly.**  Whatever the order of the steps of the
users, and whenever the run is aborted:

* the users never claim or complete more iterations than there are;
* no user is interrupted unless the run is aborted or the target itself cancels a request;
* when all users have ended, and none of them by an error, the iterations that are claimed are those
  that the users report and those within which an abort stopped a user;
* if moreover all users were started and none was interrupted, they report as many iterations as
  there are, and each of these recorded all requests of the groups. -/
theorem fixed_exact (w : Waiting) (gens : Nat → Random.Generator) (post : Post)
    (iterations concurrency : Nat)
    (hx : post.scenario.executor = .fixedIterations iterations concurrency)
    (hpos : 0 < concurrency) (choices : List Choice) :
    let s := (Scene.start w gens post).run w choices
    s.completed ≤ iterations ∧ s.claimed ≤ iterations ∧
      (s.aborted = false → (∀ i, .reply i .cancelled ∉ choices) →
        ∀ r ∈ s.reports, r.interrupted = false) ∧
      ((∀ t ∈ s.crew.threads, t.user.report?.isSome) →
        s.reported = s.completed ∧ s.claimed = s.reported + s.midway.card ∧
          (s.crew.threads.length = min iterations concurrency →
            (∀ r ∈ s.reports, r.interrupted = false) →
            s.reported = iterations ∧ s.samples.length = iterations * post.size)) := by
  intro s
  have hkept : s.Kept := kept_run w gens post choices
  have hshares : s.SharesBudget iterations concurrency := sharesBudget_run w gens post hx choices
  have hpost : s.controller.post = post := run_post w gens post choices
  have hcompleted : s.completed ≤ iterations := by
    calc s.completed ≤ s.claimers.length := hkept.completed_le
      _ = s.claimed := hshares.claimed.symm
      _ ≤ iterations := hshares.claimed_le
  refine ⟨hcompleted, hshares.claimed_le, interrupted_reports w gens post, fun hended => ?_⟩
  have hreported := completed_eq_reported_of_ended hended
  have hclaimed : s.claimed = s.reported + s.midway.card := by
    rw [hshares.claimed, hkept.length_claimers hended]
  refine ⟨hreported.symm, hclaimed, fun hall hnone => ?_⟩
  have hphases : ∀ t ∈ s.crew.threads, t.user.phase = .ended false := by
    intro t ht
    obtain ⟨r, hr⟩ := Option.isSome_iff_exists.1 (hended t ht)
    have hphase := (User.report?_eq_some.1 hr).1
    rwa [hnone r (mem_reports.2 ⟨t, ht, hr⟩)] at hphase
  -- Nobody was interrupted, so nobody has stopped within an iteration.
  have hmidway : s.midway = ∅ := by
    refine Finset.filter_eq_empty_iff.2 fun i _ hi => ?_
    rw [isMidway, Option.any_eq_true] at hi
    obtain ⟨t, ht, hi⟩ := hi
    rw [User.report?, hphases t (List.mem_of_getElem? ht)] at hi
    cases hi
  have hexact : s.reported = iterations := by
    rw [hmidway, Finset.card_empty, Nat.add_zero] at hclaimed
    rw [← hclaimed]
    exact hshares.claimed_eq hpos hall hphases
  refine ⟨hexact, ?_⟩
  rw [length_samples, hkept.length_recorders hphases, hreported, hexact, hpost]

/-- A request without a path. -/
def ping : PreparedRequest :=
  { group := "g"
    url :=
      { scheme := "http", authority := none, path := .segments [], query := none, fragment := none }
    spec := .read "/"
    tags := SortedMap.empty }

/-- Two users that share two iterations of one request. -/
def relay : Post :=
  { scenario := .new "relay" (.fixedIterations 2 2)
    groups := [{ label := "g", shuffle := false, requests := [ping] }] }

/-- Both users send their request before one of them gets the reply, and end. -/
def relayRun : List Choice :=
  List.replicate 14 (.controller .zero) ++
    List.replicate 7 (.user 0 .zero) ++ List.replicate 7 (.user 1 .zero) ++
    [.reply 1 (.status 200), .reply 0 .failed] ++
    List.replicate 7 (.user 0 .zero) ++ List.replicate 7 (.user 1 .zero)

/-- The two users when they have ended. -/
def relayed : Scene := (Scene.start .polled (.seeded 0 "relay") relay).run .polled relayRun

/-- Two users relay each other, and the two iterations are completed once each. -/
theorem fixed_exact_relayed :
    relay.scenario.executor = .fixedIterations 2 2 ∧ 0 < 2 ∧
      relayed.crew.threads.length = min 2 2 ∧
      (∀ t ∈ relayed.crew.threads, t.user.report?.isSome) ∧
      (∀ r ∈ relayed.reports, r.interrupted = false) ∧
      relayed.reported = 2 ∧ relayed.samples.length = 2 * relay.size := by
  have hx : relay.scenario.executor = .fixedIterations 2 2 := rfl
  have hall : relayed.crew.threads.length = min 2 2 := by decide +kernel
  have hended : ∀ t ∈ relayed.crew.threads, t.user.report?.isSome := by decide +kernel
  have h := fixed_exact .polled (.seeded 0 "relay") relay 2 2 hx Nat.two_pos relayRun
  have hnone : ∀ r ∈ relayed.reports, r.interrupted = false :=
    h.2.2.1 (by decide +kernel) (notMem_cancelled (by decide +kernel))
  exact ⟨hx, Nat.two_pos, hall, hended, hnone, (h.2.2.2 hended).2.2 hall hnone⟩

end Scene

end LoadReplay
