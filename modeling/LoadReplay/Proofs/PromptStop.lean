import LoadReplay.Proofs.Befalls
import LoadReplay.Proofs.CalmLife
import LoadReplay.Proofs.Haste

/-!
# Stopping promptly

The bounds that the phase of a virtual user gives hold of it in every run, whatever the other users,
the controller, the clock and the target do: how many requests it still sends and how many turns it
still has after an abort, and how many iterations it still begins when it is told to retire.

A virtual user that ends has seen one of the flags, or its request was cancelled, or there was no
iteration left for it, or it was ended by an error (`Scene.Ending`).  One such error is of the
pauses' own making: the end of a pause is worked out before the abort flag is looked at, and it may
lie beyond all spans.

Main statement: `Scene.prompt_stop`.
-/

namespace LoadReplay

namespace Scene

variable {w : Waiting} {s s' : Scene} {i : Nat}

/-! ## What is left to a virtual user -/

/-- How many times a virtual user has slept. -/
def sleepsBy (s : Scene) (i : Nat) : Nat := ((s.effects i).map User.Effect.slept).sum

/-- What a bound on a virtual user says of one with an index; `fresh` bounds what a user does that
has not been started yet. -/
def left (s : Scene) (i : Nat) (fresh : Nat) (bound : User → Nat) : Nat :=
  (s.member? i).elim fresh bound

/-- A user that is there has as many turns left as its bound says. -/
theorem left_of_member? {u : User} (h : s.member? i = some u) (fresh : Nat) (bound : User → Nat) :
    s.left i fresh bound = bound u := by
  rw [left, h, Option.elim_some]

/-- An answer is a turn only of a user that waits for one. -/
theorem isTurn_reply_le {u : User} (h : s.member? i = some u) (r : Reply) :
    (s.isTurn i (.reply i r)).toNat ≤ u.awaited?.isSome.toNat := by
  cases ht : s.user? i with
  | none =>
    rw [isTurn, ht, Option.any_none, Bool.and_false]
    exact Nat.zero_le _
  | some t =>
    obtain rfl : t.user = u := Option.some.inj ((member?_of_user? ht).symm.trans h)
    have hturn : s.isTurn i (.reply i r) = t.user.awaited?.isSome := by
      rw [isTurn, ht, beq_self_eq_true, Bool.true_and, Option.any_some]
    exact Nat.le_of_eq (congrArg Bool.toNat hturn)

/-- A step is a turn unless the user waits for an answer. -/
theorem isTurn_user {t : Thread} (ht : s.user? i = some t) (now : Span) :
    s.isTurn i (.user i now) = t.user.awaited?.isNone := by
  rw [isTurn, ht, beq_self_eq_true, Bool.true_and, Option.any_some]

/-- What a user has sent is told by its effects. -/
theorem sentBy_of_effects (h : s'.effects i = s.effects i) : s'.sentBy i = s.sentBy i := by
  rw [sentBy, h, sentBy]

/-- After an abort, whatever happens takes what it needs from the requests and the turns that are
left to a virtual user. -/
theorem Befalls.aborted {choice : Choice} (h : s.Befalls w s' i choice)
    (haborted : s.aborted = true) :
    (s'.sentBy i).length + s'.left i 0 User.requestsLeft ≤
        (s.sentBy i).length + s.left i 0 User.requestsLeft ∧
      (s.isTurn i choice).toNat + s'.left i 2 User.turnsToStop ≤ s.left i 2 User.turnsToStop := by
  -- Only the user's own step can send or use up a turn; both measures pay for it.
  cases h with
  | nothing hquiet hmember heffects =>
    rw [sentBy_of_effects heffects, left, left, left, left, hmember, hquiet]
    exact ⟨Nat.le_refl _, Nat.le_of_eq (Nat.zero_add _)⟩
  | begins hquiet hnone hmember heffects =>
    rw [sentBy_of_effects heffects, left, left, left, left, hnone, hmember, hquiet]
    exact ⟨Nat.le_refl _, Nat.le_refl _⟩
  | steps now t hchoice ht hmember heffects =>
    have ha := User.acts s.controller.post w (s.view now t.retired) t.user
    have hsent : (s'.sentBy i).length =
        (s.sentBy i).length + (s.turn w now t).2.request?.toList.length := by
      have hlast : [(s.turn w now t).2].filterMap User.Effect.request? =
          (s.turn w now t).2.request?.toList := by
        rw [List.filterMap_cons, List.filterMap_nil]
        cases (s.turn w now t).2.request? <;> rfl
      rw [sentBy, heffects, List.filterMap_append, List.length_append, hlast, sentBy]
    have hrequests : (s.turn w now t).2.request?.toList.length +
        (s.turn w now t).1.requestsLeft ≤ t.user.requestsLeft := ha.requestsLeft haborted
    have hturns : t.user.awaited?.isNone.toNat + (s.turn w now t).1.turnsToStop ≤
        t.user.turnsToStop := ha.turnsToStop haborted (user?_eq_some ht).2
    rw [hchoice, isTurn_user ht, left_of_member? hmember, left_of_member? hmember,
      left_of_member? (member?_of_user? ht), left_of_member? (member?_of_user? ht)]
    omega
  | receives r u hchoice hu hmember heffects =>
    obtain ⟨hturns, hrequests⟩ := u.turnsToStop_receive r
    have hturn := isTurn_reply_le hu r
    rw [sentBy_of_effects heffects, hchoice, left_of_member? hmember, left_of_member? hmember,
      left_of_member? hu, left_of_member? hu]
    omega
  | crashes t hchoice ht hmember heffects =>
    rw [sentBy_of_effects heffects, hchoice, left_of_member? hmember, left_of_member? hmember]
    exact ⟨Nat.add_le_add_left (Nat.zero_le _) _, Nat.zero_le _⟩

/-- The iterations that a virtual user has begun are those of its steps. -/
theorem count_claimers (s : Scene) (i : Nat) :
    s.claimers.count i = ((s.effects i).map User.Effect.claimed).sum := by
  rw [claimers, effects]
  induction s.log with
  | nil => rfl
  | cons event rest ih =>
    rw [List.flatMap_cons, List.count_append, ih, List.filterMap_cons]
    cases event with
    | controller now effect => exact Nat.zero_add _
    | user j now effect =>
      rw [Event.claimers, Event.by, List.count_replicate]
      by_cases hji : j = i
      · simp [hji]
      · simp [hji]

/-- When a virtual user is told to retire, whatever happens takes what it needs from the iterations
and the turns that are left to it; each sleep gives it two more turns. -/
theorem Befalls.retired {choice : Choice} (h : s.Befalls w s' i choice)
    (hretired : s.crew.isRetired i = true) :
    s'.claimers.count i + s'.left i 0 User.claimsLeft ≤
        s.claimers.count i + s.left i 0 User.claimsLeft ∧
      (s.isTurn i choice).toNat + s'.left i 0 (User.turnsToRetire s.controller.post.size) +
          2 * s.sleepsBy i ≤
        s.left i 0 (User.turnsToRetire s.controller.post.size) + 2 * s'.sleepsBy i := by
  rw [count_claimers, count_claimers, sleepsBy, sleepsBy]
  cases h with
  | nothing hquiet hmember heffects =>
    rw [heffects, left, left, left, left, hmember, hquiet]
    exact ⟨Nat.le_refl _, Nat.le_of_eq (congrArg (· + _) (Nat.zero_add _))⟩
  | begins hquiet hnone hmember heffects =>
    -- A user that has not been started is not told anything.
    rw [Crew.isRetired, Option.map_eq_none_iff.1 hnone] at hretired
    cases hretired
  | steps now t hchoice ht hmember heffects =>
    have ha := User.acts s.controller.post w (s.view now t.retired) t.user
    have htold := isRetired_of_user? hretired ht
    have hclaims : (s.turn w now t).2.claimed + (s.turn w now t).1.claimsLeft ≤
        t.user.claimsLeft := ha.claimsLeft htold
    have hturns : t.user.awaited?.isNone.toNat +
          (s.turn w now t).1.turnsToRetire s.controller.post.size ≤
        t.user.turnsToRetire s.controller.post.size + 2 * (s.turn w now t).2.slept :=
      ha.turnsToRetire htold (user?_eq_some ht).2
    rw [heffects, hchoice, isTurn_user ht, left_of_member? hmember, left_of_member? hmember,
      left_of_member? (member?_of_user? ht), left_of_member? (member?_of_user? ht)]
    simp only [List.map_append, List.map_cons, List.map_nil, List.sum_append, List.sum_cons,
      List.sum_nil]
    omega
  | receives r u hchoice hu hmember heffects =>
    obtain ⟨hturns, hclaims⟩ := u.turnsToRetire_receive s.controller.post.size r
    have hturn := isTurn_reply_le hu r
    rw [heffects, hchoice, left_of_member? hmember, left_of_member? hmember,
      left_of_member? hu, left_of_member? hu]
    omega
  | crashes t hchoice ht hmember heffects =>
    rw [heffects, hchoice, left_of_member? hmember, left_of_member? hmember]
    refine ⟨Nat.add_le_add_left (Nat.zero_le _) _, ?_⟩
    show 0 + 0 + _ ≤ _
    omega

/-! ## Runs -/

/-- After an abort, a run takes no more from a virtual user than is left to it. -/
theorem aborted_left_run (hkept : s.Kept) (haborted : s.aborted = true) (choices : List Choice) :
    ((s.run w choices).sentBy i).length ≤ (s.sentBy i).length + s.left i 0 User.requestsLeft ∧
      s.turns w i choices ≤ s.left i 2 User.turnsToStop := by
  induction choices generalizing s with
  | nil => exact ⟨Nat.le_add_right _ _, Nat.zero_le _⟩
  | cons choice rest ih =>
    have hnext : s.Befalls w (s.next w choice) i choice := next_befalls hkept.welcomes choice
    obtain ⟨hsent, hturns⟩ := hnext.aborted haborted
    obtain ⟨hsentRest, hturnsRest⟩ := ih (hkept.next choice) (aborted_next haborted choice)
    replace hsentRest : ((s.run w (choice :: rest)).sentBy i).length ≤ _ := hsentRest
    rw [turns]
    omega

/-- When a virtual user is told to retire, a run takes no more from it than is left to it. -/
theorem retired_left_run (hkept : s.Kept) (hretired : s.crew.isRetired i = true)
    (choices : List Choice) :
    (s.run w choices).claimers.count i ≤
        s.claimers.count i + s.left i 0 User.claimsLeft ∧
      s.turns w i choices + 2 * s.sleepsBy i ≤
        s.left i 0 (User.turnsToRetire s.controller.post.size) +
          2 * (s.run w choices).sleepsBy i := by
  induction choices generalizing s with
  | nil =>
    refine ⟨Nat.le_add_right _ _, ?_⟩
    rw [turns, Nat.zero_add]
    exact Nat.le_add_left _ _
  | cons choice rest ih =>
    have hnext : s.Befalls w (s.next w choice) i choice := next_befalls hkept.welcomes choice
    obtain ⟨hclaims, hturns⟩ := hnext.retired hretired
    obtain ⟨hclaimsRest, hturnsRest⟩ := ih (hkept.next choice) (isRetired_next hretired choice)
    rw [next_post] at hturnsRest
    replace hclaimsRest : (s.run w (choice :: rest)).claimers.count i ≤ _ := hclaimsRest
    replace hturnsRest : _ ≤ _ + 2 * (s.run w (choice :: rest)).sleepsBy i := hturnsRest
    rw [turns]
    omega

/-- In every run, what lies ahead of a virtual user is like a part of an iteration. -/
theorem inStep_run (w : Waiting) (gens : Nat → Random.Generator) (post : Post)
    (choices : List Choice) {u : User}
    (hu : ((start w gens post).run w choices).member? i = some u) : u.InStep post := by
  obtain ⟨l, hl, -⟩ := exists_life w gens post choices i
  obtain ⟨t, ht, rfl⟩ := member?_eq_some.1 hu
  obtain ⟨happenings, hlived⟩ := hl.lived
  rw [hl.user t ht, hlived]
  refine Life.run_induction post w (p := fun l => l.user.InStep post) (q := fun _ => True)
    (User.inStep_of_ahead_eq_nil rfl) (fun l happening h _ => ?_) happenings fun _ _ => trivial
  cases happening with
  | step v => exact h.acts (l.user.acts post w v)
  | reply r => exact h.receive r
  | crash =>
    rw [Life.next]
    split
    · exact h
    · exact User.inStep_of_ahead_eq_nil rfl

/-! ## How a virtual user ends -/

/-- How a virtual user that has not ended may end with what happens next. -/
inductive Ending (s : Scene) (i : Nat) (t : Thread) : Choice → User.Phase → Prop where
  /-- It sees that the run is aborted. -/
  | interrupted (choice : Choice) (h : s.aborted = true) : Ending s i t choice (.ended true)
  /-- Its request is cancelled. -/
  | cancelled : Ending s i t (.reply i .cancelled) (.ended true)
  | retired (now : Span) (h : t.user.phase = .retiring) (ht : t.retired = true) :
    Ending s i t (.user i now) (.ended false)
  /-- There is no iteration left for it. -/
  | exhausted (now : Span) (h : t.user.phase = .claiming) (hg : s.controller.grants = false) :
    Ending s i t (.user i now) (.ended false)
  /-- The end of a pause that it is about to begin lies beyond all spans. -/
  | overflows (now d : Span) (moves : List Move) (h : t.user.phase = .pausing (.opening d) moves)
    (hd : now.add? d = none) : Ending s i t (.user i now) .crashed
  /-- It is ended by another error of the program. -/
  | crashes : Ending s i t (.crash i) .crashed

/-- A step ends a virtual user in one of these ways. -/
theorem Ending.of_step {t : Thread} (now : Span) (hover : t.user.isOver = false)
    (h : (s.turn w now t).1.isOver = true) :
    s.Ending i t (.user i now) (s.turn w now t).1.phase := by
  have ha : t.user.Acts s.controller.post w (s.view now t.retired) (s.turn w now t).1
      (s.turn w now t).2 := User.acts _ _ _ _
  generalize (s.turn w now t).1 = u' at ha h ⊢
  generalize (s.turn w now t).2 = e at ha
  cases ha with
  | retires hphase hretired => exact .retired now hphase hretired
  | leaves hphase hgranted => exact .exhausted now hphase hgranted
  | stops _ haborted => exact .interrupted _ haborted
  | cuts _ _ _ hp => exact .interrupted _ (Pause.aborted_of_ends hp)
  | overflows p moves hphase hp =>
    obtain ⟨d, rfl, hd⟩ := Pause.opening_of_overflows hp
    exact .overflows now d moves hphase hd
  | awaits | rests =>
    rw [hover] at h
    cases h
  | _ => cases h

/-- Whatever happens ends a virtual user in one of these ways, or not at all. -/
theorem Befalls.ending {choice : Choice} (h : s.Befalls w s' i choice) {t : Thread}
    (ht : s.user? i = some t) {u : User} (hu : s'.member? i = some u) (hover : u.isOver = true) :
    s.Ending i t choice u.phase := by
  have hmember := member?_of_user? ht
  have halive := (user?_eq_some ht).2
  -- A user that was alive before ends by its own step, by a cancelled request or by a crash.
  cases h with
  | nothing _ hsame =>
    rw [hsame, hmember, Option.some.injEq] at hu
    rw [← hu, halive] at hover
    cases hover
  | begins _ hnone =>
    rw [hmember] at hnone
    cases hnone
  | steps now t' hchoice ht' hnext =>
    obtain rfl : t = t' := Option.some.inj (ht.symm.trans ht')
    obtain rfl : _ = u := Option.some.inj (hnext.symm.trans hu)
    rw [hchoice]
    exact .of_step now halive hover
  | receives r u' hchoice hu' hnext =>
    obtain rfl : t.user = u' := Option.some.inj (hmember.symm.trans hu')
    obtain rfl : _ = u := Option.some.inj (hnext.symm.trans hu)
    rcases t.user.phase_receive r with hgoes | ⟨rfl, hphase⟩ | hsame
    · rw [hgoes] at hover
      cases hover
    · rw [hphase, hchoice]
      exact .cancelled
    · rw [hsame, halive] at hover
      cases hover
  | crashes t' hchoice ht' hnext =>
    obtain rfl : _ = u := Option.some.inj (hnext.symm.trans hu)
    rw [hchoice]
    exact .crashes

/-- A virtual user that has ended does not change, and a new one has not ended. -/
theorem Befalls.rested {choice : Choice} (h : s.Befalls w s' i choice) (hnone : s.user? i = none)
    {u : User} (hu : s'.member? i = some u) (hover : u.isOver = true) :
    s.member? i = some u := by
  cases h with
  | nothing _ hsame => rwa [← hsame]
  | begins _ _ hnew =>
    obtain rfl : _ = u := Option.some.inj (hnew.symm.trans hu)
    cases hover
  | steps _ t _ ht | crashes t _ ht =>
    rw [hnone] at ht
    cases ht
  | receives r u' _ hu' hnext =>
    obtain ⟨t, ht, rfl⟩ := member?_eq_some.1 hu'
    rw [receive_of_isOver (isOver_of_user? hnone ht) r] at hnext
    rw [hu', ← hnext, hu]

/-- A virtual user that has ended in the end of a run had ended before, or it ended in the run. -/
theorem ending_run (hkept : s.Kept) (choices : List Choice) {u : User}
    (hu : (s.run w choices).member? i = some u) (hover : u.isOver = true) :
    s.member? i = some u ∨
      ∃ before choice after t, choices = before ++ choice :: after ∧
        (s.run w before).user? i = some t ∧ (s.run w before).Ending i t choice u.phase := by
  induction choices generalizing s with
  | nil => exact .inl hu
  | cons choice rest ih =>
    have hnext : s.Befalls w (s.next w choice) i choice := next_befalls hkept.welcomes choice
    rcases ih (hkept.next choice) hu with hended | ⟨before, c, after, t, hrest, ht, hending⟩
    · cases ht : s.user? i with
      | none => exact .inl (hnext.rested ht hended hover)
      | some t => exact .inr ⟨[], choice, rest, t, rfl, ht, hnext.ending ht hended hover⟩
    · refine .inr ⟨choice :: before, c, after, t, ?_, ht, hending⟩
      rw [hrest, List.cons_append]

/-- A virtual user that has not ended makes a step next, or gets a reply. -/
theorem exists_turn {u : User} (hu : s.member? i = some u) (hover : u.isOver = false) :
    ∃ choice, s.isTurn i choice = true := by
  obtain ⟨t, ht, rfl⟩ := member?_eq_some.1 hu
  have hsome : s.user? i = some t := by
    rw [user?, ht]
    simp [hover]
  cases hawaited : t.user.awaited? with
  | none => exact ⟨.user i .zero, by rw [isTurn_user hsome, hawaited]; rfl⟩
  | some request => exact ⟨.reply i .failed, by simp [isTurn, hsome, hawaited]⟩

/-- **A virtual user stops promptly, unless a pause overflows.**  At every moment of every run:

* once the run is aborted, a virtual user sends at most one more request and has at most eight more
  turns, whatever its pauses are;
* once it is told to retire, it begins at most one more iteration, and only if it had looked at the
  flag before; its turns are those of one iteration and two for each of its sleeps;
* as long as it has not ended, it has a turn to take;
* when it has ended, it was interrupted by an abort, or its target cancelled its request, or it left
  because it was told to retire or no iteration was left, or it was ended by an error, which may be
  a pause whose end lies beyond all spans;
* it is not interrupted in a run that is not aborted and in which no request of it is cancelled;
* if it left, it has completed all iterations that it began. -/
theorem prompt_stop (w : Waiting) (gens : Nat → Random.Generator) (post : Post)
    (before after : List Choice) (i : Nat) :
    let s := (start w gens post).run w before
    let s' := s.run w after
    (s.aborted = true →
      (s'.sentBy i).length ≤ (s.sentBy i).length + 1 ∧ s.turns w i after ≤ 8) ∧
    (s.crew.isRetired i = true →
      s'.claimers.count i ≤ s.claimers.count i + 1 ∧
      (s.claimers.count i < s'.claimers.count i →
        ∃ u, s.member? i = some u ∧ (u.phase = .checking ∨ u.phase = .claiming)) ∧
      s.turns w i after + 2 * s.sleepsBy i ≤ 8 * post.size + 13 + 2 * s'.sleepsBy i) ∧
    ∀ u, s'.member? i = some u →
      (u.isOver = false → ∃ choice, s'.isTurn i choice = true) ∧
      (u.isOver = true → s.member? i = some u ∨
        ∃ a choice b t, after = a ++ choice :: b ∧ (s.run w a).user? i = some t ∧
          (s.run w a).Ending i t choice u.phase) ∧
      (u.phase = .ended true → s'.aborted = true ∨ .reply i .cancelled ∈ before ++ after) ∧
      (u.phase = .ended false → u.iterations = s'.claimers.count i) := by
  intro s s'
  have hkept : s.Kept := kept_run w gens post before
  have hrun : (start w gens post).run w (before ++ after) = s' := List.foldl_append
  have hkept' : s'.Kept := by
    rw [← hrun]
    exact kept_run w gens post (before ++ after)
  have hpost : s.controller.post = post := run_post w gens post before
  refine ⟨fun haborted => ?_, fun hretired => ?_, fun u hu => ⟨exists_turn hu, ?_, ?_, ?_⟩⟩
  -- After the abort: what is left to send and the turns to stop only fall, and both start low.
  · obtain ⟨hsent, hturns⟩ := aborted_left_run (i := i) (w := w) hkept haborted after
    cases hu : s.member? i with
    | none =>
      rw [left, hu] at hsent hturns
      exact ⟨Nat.le_succ_of_le hsent, Nat.le_trans hturns (by decide)⟩
    | some u =>
      obtain ⟨hrequests, hstop⟩ := (inStep_run w gens post before hu).stops
      rw [left_of_member? hu] at hsent hturns
      exact ⟨Nat.le_trans hsent (Nat.add_le_add_left hrequests _), Nat.le_trans hturns hstop⟩
  -- After being told to retire: at most the iteration under way, or the one about to be claimed.
  · obtain ⟨hclaims, hturns⟩ := retired_left_run (w := w) hkept hretired after
    replace hclaims : s'.claimers.count i ≤ _ := hclaims
    obtain ⟨p, hp, -⟩ := Crew.isRetired_iff.1 hretired
    rw [Crew.standings, List.getElem?_map] at hp
    obtain ⟨t, ht, -⟩ := Option.map_eq_some_iff.1 hp
    have hu : s.member? i = some t.user := member?_eq_some.2 ⟨t, ht, rfl⟩
    have hretire := (inStep_run w gens post before hu).retires
    rw [left_of_member? hu] at hclaims hturns
    rw [hpost] at hturns
    have hleft : t.user.claimsLeft ≤ 1 ∧
        (0 < t.user.claimsLeft → t.user.phase = .checking ∨ t.user.phase = .claiming) := by
      rw [User.claimsLeft]
      cases t.user.phase <;> simp
    refine ⟨Nat.le_trans hclaims (Nat.add_le_add_left hleft.1 _), fun hmore => ?_, ?_⟩
    · exact ⟨t.user, hu, hleft.2 (by omega)⟩
    · exact Nat.le_trans hturns (Nat.add_le_add_right hretire _)
  · exact ending_run hkept after hu
  · obtain ⟨t, ht, rfl⟩ := member?_eq_some.1 hu
    intro hphase
    rw [← hrun] at ht ⊢
    exact interrupted_start w gens post (before ++ after) ht hphase
  · intro hphase
    obtain ⟨t, ht, rfl⟩ := member?_eq_some.1 hu
    have haccount := hkept'.agrees i t ht
    rw [Agrees, User.Account, hphase] at haccount
    exact haccount.1.symm

/-- A user without requests that pauses for as long as possible. -/
def sleeper : Post :=
  { scenario :=
      { Scenario.new "sleeper" (.fixedIterations 1 1) with
        iterationPause := ⟨maxNanos, Nat.le_refl _⟩ }
    groups := [] }

/-- The run is aborted when the user is about to begin its pause. -/
def bedtime : List Choice :=
  List.replicate 7 (.controller .zero) ++ List.replicate 6 (.user 0 .zero) ++ [.abort]

/-- The user when the run has just been aborted. -/
def tired : Scene := (start .polled (.seeded 0 "sleeper") sleeper).run .polled bedtime

/-- The user makes one more step. -/
def asleep : Scene := tired.run .polled [.user 0 (.millis 1)]

/-- The user begins its pause although the run is aborted, and is not interrupted by the abort: it
is ended by an error, because the end of the pause lies beyond all spans. -/
theorem prompt_stop_asleep :
    tired.aborted = true ∧
      ∃ u, asleep.member? 0 = some u ∧ u.isOver = true ∧ u.report? = none ∧
        (asleep.sentBy 0).length ≤ (tired.sentBy 0).length + 1 ∧
        ∃ t d moves, tired.user? 0 = some t ∧ t.user.phase = .pausing (.opening d) moves ∧
          (Span.millis 1).add? d = none := by
  have haborted : tired.aborted = true := by decide +kernel
  have hcrashed : ((asleep.member? 0).any fun u => u.isOver && u.report?.isNone) = true := by
    decide +kernel
  have hawake : ((tired.member? 0).any fun u => !u.isOver) = true := by decide +kernel
  obtain ⟨u, hu, hend⟩ := (Option.any_eq_true _ _).1 hcrashed
  obtain ⟨u₀, hu₀, halive⟩ := (Option.any_eq_true _ _).1 hawake
  rw [Bool.and_eq_true, Option.isNone_iff_eq_none] at hend
  have h := prompt_stop .polled (.seeded 0 "sleeper") sleeper bedtime [.user 0 (.millis 1)] 0
  refine ⟨haborted, u, hu, hend.1, hend.2, (h.1 haborted).1, ?_⟩
  rcases (h.2.2 u hu).2.1 hend.1 with hbefore | ⟨a, choice, b, t, hafter, ht, hending⟩
  · -- It has not ended before.
    obtain rfl : u₀ = u := Option.some.inj (hu₀.symm.trans hbefore)
    rw [hend.1] at halive
    cases halive
  · obtain ⟨rfl, rfl, -⟩ : a = [] ∧ choice = .user 0 (.millis 1) ∧ b = [] := by
      cases a with
      | nil => simpa [eq_comm] using hafter
      | cons c a => simp at hafter
    rw [User.report?] at hend
    generalize u.phase = phase at hending hend
    cases hending with
    | overflows now d moves hphase hd => exact ⟨t, d, moves, ht, hphase, hd⟩
    | interrupted | retired | exhausted => cases hend.2

end Scene

end LoadReplay
