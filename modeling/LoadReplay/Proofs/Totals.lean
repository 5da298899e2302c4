import LoadReplay.Proofs.FixedIterations
import LoadReplay.Proofs.JoinedReports
import LoadReplay.Proofs.UsersLeft

/-!
# No report is lost or counted twice

A controller that ends with a report has joined all users that it started, and it has their reports.
So the totals of the scenario are those of all its users, and it says that it was interrupted
exactly if an abort cut one of its control pauses short or one of its users was stopped: by the
abort, or by the target, which may cancel a request at any time.

Main statement: `Scene.totals_complete`.
-/

namespace LoadReplay

namespace Controller

variable {w : Waiting} {now : Span} {c c' : Controller} {e : Effect}

/-! ## What a control pause that is cut short leaves behind -/

/-- Whether a control pause is cut short by the next step. -/
def isCut (c : Controller) (now : Span) (aborted : Bool) : Bool :=
  match c.phase with
  | .ticking p _ => c.crew.isIdle && p.step now aborted == .ends false
  | _ => false

/-- Joining cuts no pause short. -/
theorem cut_joined (c : Controller) (last : Bool) : (c.joined last).cut = c.cut := by
  cases last <;> rfl

/-- Only in a tick a control pause can be cut short. -/
theorem Acts.cut (ha : c.Acts w now c' e) (h : ∀ p loop, c.phase ≠ .ticking p loop) :
    c'.cut = c.cut := by
  cases ha with
  | cuts p loop hphase => exact absurd hphase (h p loop)
  | joinedAll last => exact c.cut_joined last
  | breaks i rest last => exact cut_joined _ last
  | _ => rfl

/-- What a crew is in the middle of cuts no pause short. -/
theorem Steps.cut_of_busy (hst : c.Steps w now c' e) (h : c.crew.task ≠ .none) :
    c'.cut = c.cut := by
  cases hst with
  | acts hidle => exact absurd hidle h
  | _ => rfl

/-- A controller remembers that a control pause was cut short. -/
theorem cut_step (c : Controller) (w : Waiting) (now : Span) (aborted : Bool) :
    (c.step w now aborted).1.cut = (c.cut || c.isCut now aborted) := by
  by_cases hidle : c.crew.isIdle = true
  · have hact : c.step w now aborted = c.act w now aborted := if_pos hidle
    rw [hact]
    cases hphase : c.phase with
    | ticking p loop =>
      have htick : c.act w now aborted = c.tickNext loop (p.step now aborted) := by
        rw [act, hphase]
      have hcut : c.isCut now aborted = (p.step now aborted == .ends false) := by
        simp [isCut, hphase, hidle]
      rw [htick, hcut]
      cases p.step now aborted with
      | ends full => cases full <;> simp [tickNext]
      | _ => simp [tickNext]
    | _ =>
      have hcut := (c.acts w now aborted).cut fun p loop => by simp [hphase]
      rw [hcut, isCut, hphase, Bool.or_false]
  · have htask : c.crew.task ≠ .none := fun hn => hidle (by rw [Crew.isIdle, hn])
    have hcut := (c.steps w now aborted).cut_of_busy htask
    have hnot : c.isCut now aborted = false := by
      rw [isCut]
      split
      · rw [Bool.eq_false_iff.2 hidle, Bool.false_and]
      · rfl
    rw [hcut, hnot, Bool.or_false]

/-- The report of a controller that has returned one. -/
def report? (c : Controller) : Option ScenarioReport :=
  match c.phase with
  | .ended report => some report
  | _ => none

/-- A controller that has started reports what its crew says in the end. -/
def Concludes (c : Controller) : Prop :=
  match c.phase with
  | .delaying _ => False
  | .ended report => report.iterations = c.crew.iterations ∧
      report.vusSpawned = c.crew.gauge.spawned ∧ report.interrupted = (c.cut || c.crew.interrupted)
  | _ => True

/-- What follows the joins is a report still to be made, or an error. -/
theorem concludes_joined (c : Controller) (last : Bool) : (c.joined last).Concludes := by
  rw [joined]
  cases last with
  | false => trivial
  | true => cases c.broken <;> trivial

/-- Each row of the table leads on from the start, and a report says what the crew says. -/
theorem Concludes.acts (h : c.Concludes) (ha : c.Acts w now c' e) : c'.Concludes := by
  have hrow := h
  rw [Concludes] at hrow
  cases ha with
  | delays _ _ _ hphase | delayed _ hphase | skips _ hphase =>
    rw [hphase] at hrow
    exact hrow.elim
  | reports => exact ⟨rfl, rfl, rfl⟩
  | rests | awaits => exact h
  | retires _ _ _ hphase | spawns _ _ _ hphase =>
    rw [Concludes]
    simp only [enrol, hphase]
  | joinedAll last => exact c.concludes_joined last
  | breaks i rest last => exact concludes_joined _ last
  | _ => trivial

/-- What happens to the crew alone does not concern a report that was made. -/
theorem Concludes.of_crew {crew : Crew} {budget : Option Budget} (h : c.Concludes)
    (hreports : (∃ report, c.phase = .ended report) → crew.reports = c.crew.reports)
    (hspawned : (∃ report, c.phase = .ended report) → crew.gauge.spawned = c.crew.gauge.spawned) :
    ({ c with crew, budget } : Controller).Concludes := by
  rw [Concludes] at h ⊢
  cases hphase : c.phase with
  | ended report =>
    rw [hphase] at h hreports hspawned
    obtain ⟨hiterations, hvus, hinterrupted⟩ := h
    refine ⟨?_, hvus.trans (hspawned ⟨report, rfl⟩).symm, ?_⟩
    · rw [hiterations, Crew.iterations, Crew.iterations]
      rw [show crew.reports = _ from hreports ⟨report, rfl⟩]
    · rw [hinterrupted, Crew.interrupted, Crew.interrupted]
      rw [show crew.reports = _ from hreports ⟨report, rfl⟩]
  | delaying p =>
    rw [hphase] at h
    exact h
  | _ => trivial

/-- A controller that has a report is in the middle of nothing. -/
theorem Rests.idle_of_ended (h : c.Rests) {report : ScenarioReport}
    (hphase : c.phase = .ended report) : c.crew.task = .none := by
  rw [Rests, hphase] at h
  exact h.1

/-- So does every step of a controller. -/
theorem Concludes.steps (h : c.Concludes) (hrests : c.Rests) (hst : c.Steps w now c' e) :
    c'.Concludes := by
  have hbusy {report : ScenarioReport} (htask : c.crew.task ≠ .none) :
      c.phase ≠ .ended report := fun hphase => htask (hrests.idle_of_ended hphase)
  cases hst with
  | acts _ ha => exact h.acts ha
  | works htask | started htask | joined _ htask =>
    refine h.of_crew (fun ⟨report, hphase⟩ => ?_) (fun ⟨report, hphase⟩ => ?_)
    · exact absurd hphase (hbusy htask)
    · exact absurd hphase (hbusy htask)
  | broken | refused => trivial

end Controller

namespace Scene

variable {w : Waiting} {s s' : Scene}

/-! ## What a scenario reports -/

/-- A failure is not forgotten. -/
theorem broken_next (h : s.controller.broken = true) (choice : Choice) :
    (s.next w choice).controller.broken = true := by
  cases s.next_turn w choice with
  | controller now hc =>
    rw [hc]
    exact (s.controller.steps w now s.aborted).broken_of_broken h
  | refuse hr | leave _ _ hr =>
    rw [hr]
    exact h
  | users hu => rw [hu.broken, h]

/-- Where nothing has failed in the end, nothing had failed before. -/
theorem broken_of_prefix {a choices : List Choice} (ha : a <+: choices)
    (h : (s.run w choices).controller.broken = false) : (s.run w a).controller.broken = false := by
  obtain ⟨b, rfl⟩ := ha
  cases hbroken : (s.run w a).controller.broken with
  | false => rfl
  | true =>
    have hstill : ((s.run w a).run w b).controller.broken = true :=
      run_induction w (p := fun s => s.controller.broken = true) hbroken
        (fun _ choice h => broken_next h choice) b
    rw [show s.run w (a ++ b) = (s.run w a).run w b from List.foldl_append, hstill] at h
    cases h

/-- A step that cuts a control pause short is the only one that the controller remembers so. -/
theorem cut_next (s : Scene) (choice : Choice) :
    (s.next w choice).controller.cut = true ↔
      s.controller.cut = true ∨
        ∃ now, choice = .controller now ∧ s.controller.isCut now s.aborted = true := by
  by_cases hchoice : ∃ now, choice = .controller now
  · obtain ⟨now, rfl⟩ := hchoice
    show (s.controller.step w now s.aborted).1.cut = true ↔ _
    rw [Controller.cut_step, Bool.or_eq_true]
    simp
  · have hother (now : Span) : choice ≠ .controller now := fun hc => hchoice ⟨now, hc⟩
    rw [controller_next w hother]
    simp [hother]

/-- A control pause was cut short exactly if a tick has seen the abort. -/
theorem cut_run (s : Scene) (choices : List Choice) :
    (s.run w choices).controller.cut = true ↔
      s.controller.cut = true ∨ ∃ a now b, choices = a ++ .controller now :: b ∧
        (s.run w a).controller.isCut now (s.run w a).aborted = true := by
  induction choices generalizing s with
  | nil => simp [run]
  | cons choice rest ih =>
    have hrest := ih (s.next w choice)
    rw [cut_next] at hrest
    constructor
    · intro h
      rcases hrest.1 h with (hcut | ⟨now, rfl, hnow⟩) | ⟨a, now, b, rfl, hnow⟩
      · exact .inl hcut
      · exact .inr ⟨[], now, rest, rfl, hnow⟩
      · exact .inr ⟨choice :: a, now, b, rfl, hnow⟩
    · rintro (hcut | ⟨a, now, b, hsplit, hnow⟩)
      · exact hrest.2 (.inl (.inl hcut))
      · cases a with
        | nil =>
          obtain ⟨rfl, rfl⟩ := List.cons.inj hsplit
          exact hrest.2 (.inl (.inr ⟨now, rfl, hnow⟩))
        | cons first a =>
          obtain ⟨rfl, rfl⟩ := List.cons.inj hsplit
          exact hrest.2 (.inr ⟨a, now, b, rfl, hnow⟩)

/-- Whatever happens to a scenario that has started, it reports what its crew says. -/
theorem concludes_next (h : s.controller.Concludes) (hledger : s.Ledger) (choice : Choice) :
    (s.next w choice).controller.Concludes := by
  cases s.next_turn w choice with
  | controller now hc =>
    rw [hc]
    exact h.steps hledger.rests (s.controller.steps w now s.aborted)
  | refuse hr =>
    rw [hr]
    obtain ⟨hspawned, hreports⟩ := s.crew.refuse_reports
    exact h.of_crew (fun _ => hreports) fun _ => hspawned
  | leave i _ hl =>
    rw [hl]
    obtain ⟨hspawned, hreports⟩ := s.crew.leave_reports i
    exact h.of_crew (fun _ => hreports) fun _ => hspawned
  | users hu =>
    rw [hu.controller, hu.crew]
    exact h.of_crew (fun _ => rfl) fun _ => rfl

/-- **A controller that has started reports what its crew says in the end**, in every run. -/
theorem concludes_run {a choices : List Choice} (w : Waiting) (gens : Nat → Random.Generator)
    (post : Post)
    (ha : a <+: choices) (hstarted : ((start w gens post).run w a).controller.phase = .starting) :
    ((start w gens post).run w choices).controller.Concludes := by
  obtain ⟨b, rfl⟩ := ha
  have hstart : ((start w gens post).run w a).controller.Concludes := by
    rw [Controller.Concludes, hstarted]
    trivial
  have hrun := run_induction w (p := fun s => s.controller.Concludes ∧ s.Ledger)
    ⟨hstart, ledger_run w gens post a⟩
    (fun s choice ⟨h, hledger⟩ => ⟨concludes_next h hledger choice, hledger.next choice⟩) b
  rw [show (start w gens post).run w (a ++ b) = _ from List.foldl_append]
  exact hrun.1

end Scene

/-! ## Totals -/

namespace Crew

variable {c : Crew} {users : List Nat} {reports : List UserReport}

/-- The report of a virtual user that has ended. -/
def report? (c : Crew) (i : Nat) : Option UserReport := (c.threads[i]?).bind (·.user.report?)

/-- The reports of joined users are those of the users. -/
theorem map_report? (h : List.Forall₂ c.Reports users reports) :
    users.map c.report? = reports.map some := by
  induction h with
  | nil => rfl
  | cons hr _ ih => rw [List.map_cons, List.map_cons, ih, report?, Option.bind_eq_some_iff.2 hr]

/-- The reports of all users, each of them once, add up to what the users have completed. -/
theorem sum_iterations (h : List.Forall₂ c.Reports users reports)
    (hall : users.Perm (List.range c.threads.length)) :
    (reports.map (·.iterations)).sum = (c.threads.map (·.user.iterations)).sum := by
  have hone : ∀ i ∈ users, (c.report? i).elim 0 (·.iterations) =
      (c.threads[i]?).elim 0 (·.user.iterations) := by
    intro i hi
    obtain ⟨r, -, hr⟩ : ∃ r ∈ reports, some r = c.report? i := by
      have hmem : c.report? i ∈ reports.map some := by
        rw [← map_report? h]
        exact List.mem_map_of_mem hi
      exact List.mem_map.1 hmem
    obtain ⟨t, ht, hreport⟩ := Option.bind_eq_some_iff.1 hr.symm
    rw [← hr, ht]
    exact (User.report?_eq_some.1 hreport).2
  have hrange : (List.range c.threads.length).map
      (fun i => (c.threads[i]?).elim 0 (·.user.iterations)) =
        c.threads.map (·.user.iterations) := by
    refine List.ext_getElem (by simp) fun i hi _ => ?_
    have hlt : i < c.threads.length := by simpa using hi
    simp [List.getElem?_eq_getElem hlt]
  calc (reports.map (·.iterations)).sum
      = ((reports.map some).map (·.elim 0 (·.iterations))).sum := by rw [List.map_map]; rfl
    _ = (users.map fun i => (c.report? i).elim 0 (·.iterations)).sum := by
        rw [← map_report? h, List.map_map]; rfl
    _ = (users.map fun i => (c.threads[i]?).elim 0 (·.user.iterations)).sum := by
        rw [List.map_congr_left hone]
    _ = _ := by rw [(hall.map _).sum_nat, hrange]

/-- Some report says that its user was interrupted if some user was. -/
theorem any_interrupted (h : List.Forall₂ c.Reports users reports)
    (hall : users.Perm (List.range c.threads.length)) :
    reports.any (·.interrupted) = true ↔ ∃ t ∈ c.threads, t.user.phase = .ended true := by
  -- Reports and users correspond, in whatever order they were joined.
  have hmem (r : UserReport) : r ∈ reports ↔ ∃ i ∈ users, c.Reports i r := by
    have hmap := map_report? h
    constructor
    · intro hr
      have hsome : some r ∈ users.map c.report? := by
        rw [hmap]
        exact List.mem_map_of_mem hr
      obtain ⟨i, hi, hreport⟩ := List.mem_map.1 hsome
      exact ⟨i, hi, Option.bind_eq_some_iff.1 hreport⟩
    · rintro ⟨i, hi, hreport⟩
      have hsome : some r ∈ reports.map some := by
        rw [← hmap]
        exact List.mem_map.2 ⟨i, hi, Option.bind_eq_some_iff.2 hreport⟩
      simpa using hsome
  rw [List.any_eq_true]
  constructor
  · rintro ⟨r, hr, hcut⟩
    obtain ⟨i, -, t, ht, hreport⟩ := (hmem r).1 hr
    have hphase := (User.report?_eq_some.1 hreport).1
    rw [hcut] at hphase
    exact ⟨t, List.mem_of_getElem? ht, hphase⟩
  · rintro ⟨t, ht, hphase⟩
    obtain ⟨i, hi⟩ := List.mem_iff_getElem?.1 ht
    have hlt : i < c.threads.length := (List.getElem?_eq_some_iff.1 hi).1
    have hreport : t.user.report? = some ⟨t.user.iterations, true⟩ :=
      User.report?_eq_some.2 ⟨hphase, rfl⟩
    exact ⟨_, (hmem _).2 ⟨i, hall.mem_iff.2 (List.mem_range.2 hlt), t, hi, hreport⟩, rfl⟩

/-- The iterations of a crew are added up as words. -/
theorem iterations_eq (c : Crew) :
    c.iterations = (c.reports.map (·.iterations)).sum % 2 ^ 64 := by
  have hsum : c.reports.foldr (fun r n => r.iterations + n) 0 =
      (c.reports.map (·.iterations)).sum := by
    induction c.reports with
    | nil => rfl
    | cons r rest ih => rw [List.foldr_cons, ih, List.map_cons, List.sum_cons]
  rw [iterations, hsum]
  rfl

end Crew

namespace Scene

/-- **No report is lost or counted twice.**  In every run of a scenario that starts and ends with a
report, whatever its executor is:

* whenever the controller is in the middle of nothing, every user that was started is live, or told
  to retire, or about to be joined, or joined, and only one of these; the live users are in the
  order in which they were started; and the reports are those of the joined users;
* the report says how many iterations all users have completed, as a 64-bit count, and how many
  users were started;
* it says that the scenario was interrupted if and only if an abort cut a control pause short or
  some user was interrupted, by an abort or because the target cancelled a request of it. -/
theorem totals_complete (w : Waiting) (gens : Nat → Random.Generator) (post : Post)
    (choices : List Choice)
    (report : ScenarioReport)
    (hstarted : ∃ a, a <+: choices ∧ ((start w gens post).run w a).controller.phase = .starting)
    (hreport : ((start w gens post).run w choices).controller.report? = some report) :
    let s := (start w gens post).run w choices
    (∀ a, a <+: choices →
      let s' := (start w gens post).run w a
      s'.crew.task = .none →
        (s'.crew.live ++ s'.crew.draining ++ s'.controller.queue ++ s'.joined).Perm
          (List.range s'.crew.nextIndex) ∧
        s'.crew.live.Pairwise (· < ·) ∧
        List.Forall₂ s'.crew.Reports s'.joined s'.crew.reports) ∧
      report.iterations = s.completed % 2 ^ 64 ∧
      report.vusSpawned = s.crew.nextIndex ∧
      (report.interrupted = true ↔
        (∃ a now b, choices = a ++ .controller now :: b ∧
          let s' := (start w gens post).run w a
          s'.controller.isCut now s'.aborted = true) ∨
        ∃ t ∈ s.crew.threads, t.user.phase = .ended true) := by
  intro s
  have hphase : s.controller.phase = .ended report := by
    rw [Controller.report?] at hreport
    split at hreport
    · rename_i r hphase
      rw [hphase, Option.some.inj hreport]
    · cases hreport
  have hgives : s.GivesUp := givesUp_run w gens post choices
  have htallied : s.Tallied := tallied_run w gens post choices
  have hcalm : s.controller.broken = false := by
    have h := hgives.calm
    rwa [Controller.Calm, hphase] at h
  -- Users are given up only by a controller that has been broken up, and such a one has no report.
  have hnone {s : Scene} (h : s.GivesUp) (hs : s.controller.broken = false) : s.givenUp = [] := by
    by_contra hne
    rw [(h.failed hne).1] at hs
    cases hs
  refine ⟨fun a ha => ?_, ?_⟩
  · intro s₁ hidle
    have hgives₁ : s₁.GivesUp := givesUp_run w gens post a
    have htallied₁ : s₁.Tallied := tallied_run w gens post a
    have hcalm₁ : s₁.controller.broken = false := broken_of_prefix ha hcalm
    refine ⟨List.perm_iff_count.2 fun i => ?_, ?_, htallied₁.reports hcalm₁⟩
    -- The ledger accounts for every index, and nothing was given up.
    · have hcount := hgives₁.ledger.accounted i
      rw [hnone hgives₁ hcalm₁, List.count_nil, Controller.held,
        show s₁.controller.crew.held = _ from Crew.held_of_idle hidle] at hcount
      simp only [List.count_append] at hcount ⊢
      rw [crew] at hcount ⊢
      rw [Crew.nextIndex]
      omega
    · rw [← Crew.roll_of_idle hidle]
      exact htallied₁.ordered.sorted
  · obtain ⟨a, ha, hstarting⟩ := hstarted
    have hconcludes : s.controller.Concludes := concludes_run w gens post ha hstarting
    rw [Controller.Concludes, hphase] at hconcludes
    obtain ⟨hiterations, hspawned, hinterrupted⟩ := hconcludes
    have hret : s.controller.hasReturned = true := by rw [Controller.hasReturned, hphase]
    -- In the end everyone has been joined, so the reports are those of all users.
    have hall : s.joined.Perm (List.range s.crew.threads.length) := by
      have h := hgives.settled hret
      rwa [hnone hgives hcalm, List.append_nil] at h
    have hreports := htallied.reports hcalm
    refine ⟨?_, ?_, ?_⟩
    · rw [hiterations, Crew.iterations_eq, completed]
      rw [← Crew.sum_iterations hreports hall]
      rfl
    · have hcount := htallied.counts hcalm
      rw [hgives.ledger.rests.idle_of_ended hphase] at hcount
      rw [hspawned, hcount]
      rfl
    · rw [hinterrupted, Bool.or_eq_true, cut_run]
      have hany : s.controller.crew.interrupted = true ↔
          ∃ t ∈ s.crew.threads, t.user.phase = .ended true := Crew.any_interrupted hreports hall
      rw [hany]
      have hstart : (start w gens post).controller.cut = false := rfl
      simp only [hstart, Bool.false_eq_true, false_or]

/-- Of two users that share two iterations, the first one completes one of them and leaves, and the
second one is interrupted by an abort within the other. -/
def handover : List Choice :=
  List.flatten
    [.replicate 14 (.controller .zero), .replicate 10 (.user 0 .zero), .replicate 3 (.user 1 .zero),
      [.user 0 .zero, .abort], .replicate 2 (.user 1 .zero), .replicate 4 (.leave 0),
      .replicate 4 (.leave 1), .replicate 7 (.controller .zero)]

/-- The two users when their controller has returned. -/
def handedOver : Scene := (start .polled (.seeded 0 "pair") pair).run .polled handover

/-- One iteration is completed and the other one cut short; two users were started. -/
theorem totals_complete_handedOver :
    ∃ report, handedOver.controller.report? = some report ∧ report.iterations = 1 ∧
      report.vusSpawned = 2 ∧ report.interrupted = true := by
  have hreported : handedOver.controller.report?.isSome = true := by decide +kernel
  obtain ⟨report, hreport⟩ := Option.isSome_iff_exists.1 hreported
  have hstarted : ∃ a, a <+: handover ∧
      ((start .polled (.seeded 0 "pair") pair).run .polled a).controller.phase = .starting :=
    ⟨[], List.nil_prefix, rfl⟩
  obtain ⟨-, hiterations, hspawned, hinterrupted⟩ :=
    totals_complete .polled (.seeded 0 "pair") pair handover report hstarted hreport
  have hcompleted : handedOver.completed = 1 := by decide +kernel
  have hthreads : handedOver.crew.nextIndex = 2 := by decide +kernel
  have hstopped :
      (handedOver.crew.threads.any fun t => t.user.report?.any (·.interrupted)) = true := by
    decide +kernel
  refine ⟨report, hreport, ?_, hspawned.trans hthreads, hinterrupted.2 (.inr ?_)⟩
  · rw [hiterations, ← handedOver, hcompleted]
    exact Nat.mod_eq_of_lt (Nat.one_lt_two_pow (by decide))
  · obtain ⟨t, ht, hany⟩ := List.any_eq_true.1 hstopped
    obtain ⟨r, hr, hcut⟩ := (Option.any_eq_true _ _).1 hany
    have hphase := (User.report?_eq_some.1 hr).1
    rw [hcut] at hphase
    exact ⟨t, ht, hphase⟩

end Scene

end LoadReplay
