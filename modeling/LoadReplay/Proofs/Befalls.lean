import LoadReplay.Proofs.Lives

/-!
# What befalls a virtual user

Whatever happens in a scene concerns a given virtual user in one of a few ways (`Scene.Befalls`): it
is started, it makes a step, it gets a reply, it is ended by an error, or nothing happens to it.  So
what is to be said of one user in a run is proved with one case for each of them.
-/

namespace LoadReplay

namespace Scene

/-! ## What concerns a virtual user -/

/-- The virtual user with an index, if it has been started. -/
def member? (s : Scene) (i : Nat) : Option User := s.crew.threads[i]?.map (·.user)

/-- Whether something is a turn of a virtual user: it makes a step, or it gets the reply that it
waits for. -/
def isTurn (s : Scene) (i : Nat) : Choice → Bool
  | .user j _ => j == i && (s.user? i).any fun t => t.user.awaited?.isNone
  | .reply j _ => j == i && (s.user? i).any fun t => t.user.awaited?.isSome
  | .abort | .controller _ | .refuse | .crash _ | .leave _ => false

variable (w : Waiting)

/-- How many turns a virtual user has in a run. -/
def turns (i : Nat) : Scene → List Choice → Nat
  | _, [] => 0
  | s, choice :: rest => (s.isTurn i choice).toNat + turns i (s.next w choice) rest

/-- What something that happens in a scene is to one virtual user. -/
inductive Befalls (s s' : Scene) (i : Nat) (choice : Choice) : Prop where
  | nothing (hquiet : s.isTurn i choice = false) (hmember : s'.member? i = s.member? i)
    (heffects : s'.effects i = s.effects i)
  | begins (hquiet : s.isTurn i choice = false) (hnone : s.member? i = none)
    (hmember : s'.member? i = some (.new i (s.controller.generators i)))
    (heffects : s'.effects i = s.effects i)
  | steps (now : Span) (t : Thread) (hchoice : choice = .user i now) (ht : s.user? i = some t)
    (hmember : s'.member? i = some (s.turn w now t).1)
    (heffects : s'.effects i = s.effects i ++ [(s.turn w now t).2])
  | receives (r : Reply) (u : User) (hchoice : choice = .reply i r) (hu : s.member? i = some u)
    (hmember : s'.member? i = some (u.receive r)) (heffects : s'.effects i = s.effects i)
  | crashes (t : Thread) (hchoice : choice = .crash i) (ht : s.user? i = some t)
    (hmember : s'.member? i = some t.user.crash) (heffects : s'.effects i = s.effects i)

variable {w}
variable {s s' : Scene} {i : Nat}

/-- A user that is there has a thread. -/
theorem member?_eq_some {u : User} :
    s.member? i = some u ↔ ∃ t, s.crew.threads[i]? = some t ∧ t.user = u :=
  Option.map_eq_some_iff

/-- A user that makes a step is there. -/
theorem member?_of_user? {t : Thread} (h : s.user? i = some t) : s.member? i = some t.user :=
  member?_eq_some.2 ⟨t, (user?_eq_some h).1, rfl⟩

/-- A virtual user that is changed is no other. -/
theorem member?_modifyUser (s : Scene) (i j : Nat) (f : User → User) :
    (s.modifyUser j f).member? i = if j = i then (s.member? i).map f else s.member? i := by
  show ((s.crew.threads.modify j _)[i]?).map _ = _
  rw [List.getElem?_modify, member?]
  by_cases hji : j = i
  · subst hji
    simp only [if_true]
    cases s.crew.threads[j]? <;> rfl
  · simp only [hji, if_false]
    cases s.crew.threads[i]? <;> rfl

/-- A step of the controller starts a user or does not concern it. -/
theorem Befalls.controller (hwelcomes : s.controller.Welcomes) (now : Span) :
    s.Befalls w (s.stepController w now) i (.controller now) := by
  have hst := s.controller.steps w now s.aborted
  have heffects : (s.stepController w now).effects i = s.effects i := by
    rw [effects_append (s := s) rfl]
    exact List.append_nil _
  cases hmember : (s.stepController w now).member? i with
  | none =>
    refine .nothing rfl ?_ heffects
    -- No user is lost.
    have hlength := hst.change.length_le
    have hnone := Option.map_eq_none_iff.1 hmember
    rw [hmember, member?, eq_comm, Option.map_eq_none_iff]
    rw [List.getElem?_eq_none_iff] at hnone ⊢
    exact Nat.le_trans hlength hnone
  | some u =>
    obtain ⟨t', ht', rfl⟩ := member?_eq_some.1 hmember
    rcases hst.change.thread ht' with ⟨t, ht, huser, -⟩ | ⟨u, htask, hi, rfl⟩
    · refine .nothing rfl ?_ heffects
      rw [hmember, huser]
      exact (member?_eq_some.2 ⟨t, ht, rfl⟩).symm
    · have hnew : u = _ := hwelcomes u (by rw [htask]; rfl)
      have hnone : s.member? i = none := by
        rw [member?, Option.map_eq_none_iff, List.getElem?_eq_none_iff, hi]
        exact Nat.le_refl _
      rw [← hi] at hnew
      exact .begins rfl hnone (by rw [hmember, hnew]) heffects

/-- A step of a user befalls itself, and nobody else. -/
theorem Befalls.user {j : Nat} (now : Span) :
    s.Befalls w (s.next w (.user j now)) i (.user j now) := by
  rw [next]
  cases ht : s.user? j with
  | none =>
    refine .nothing ?_ rfl rfl
    rw [isTurn]
    by_cases hji : j = i
    · rw [← hji, ht]
      exact Bool.and_false _
    · rw [beq_false_of_ne hji, Bool.false_and]
  | some t =>
    have heffects := s.effects_stepUser (w := w) j i now t
    have hmember : (s.stepUser w j now t).member? i =
        (s.modifyUser j fun _ => (s.turn w now t).1).member? i := by
      rw [member?, crew_stepUser, member?]
    rw [member?_modifyUser] at hmember
    by_cases hji : j = i
    · subst hji
      rw [if_pos rfl] at heffects hmember
      rw [member?_of_user? ht] at hmember
      exact .steps now t rfl ht hmember heffects
    · rw [if_neg hji] at heffects hmember
      rw [List.append_nil] at heffects
      refine .nothing ?_ hmember heffects
      rw [isTurn, beq_false_of_ne hji, Bool.false_and]

/-- So does an answer. -/
theorem Befalls.reply {j : Nat} (r : Reply) :
    s.Befalls w (s.next w (.reply j r)) i (.reply j r) := by
  have hmember : (s.next w (.reply j r)).member? i = _ := s.member?_modifyUser i j (·.receive r)
  by_cases hji : j = i
  · subst hji
    rw [if_pos rfl] at hmember
    cases hu : s.member? j with
    | none =>
      have hnone : s.user? j = none := by
        rw [user?, Option.map_eq_none_iff.1 hu]
        rfl
      rw [hu] at hmember
      exact .nothing (by simp [isTurn, hnone]) (hmember.trans hu.symm) rfl
    | some u =>
      rw [hu] at hmember
      exact .receives r u rfl hu hmember rfl
  · rw [if_neg hji] at hmember
    refine .nothing ?_ hmember rfl
    rw [isTurn, beq_false_of_ne hji, Bool.false_and]

/-- So does an error of the program. -/
theorem Befalls.crash {j : Nat} : s.Befalls w (s.next w (.crash j)) i (.crash j) := by
  rw [next]
  cases ht : s.user? j with
  | none => exact .nothing rfl rfl rfl
  | some t =>
    have hmember := s.member?_modifyUser i j (·.crash)
    by_cases hji : j = i
    · subst hji
      rw [if_pos rfl, member?_of_user? ht] at hmember
      exact .crashes t rfl ht hmember rfl
    · rw [if_neg hji] at hmember
      exact .nothing rfl hmember rfl

/-- Whatever happens in a scene concerns a virtual user in one of these ways. -/
theorem next_befalls (hwelcomes : s.controller.Welcomes) (choice : Choice) :
    s.Befalls w (s.next w choice) i choice := by
  cases choice with
  | abort => exact .nothing rfl rfl rfl
  | controller now => exact .controller hwelcomes now
  | refuse =>
    refine .nothing rfl ?_ rfl
    rcases s.crew.refuse_cases with hr | ⟨u, -, hr⟩ <;>
      rw [next, member?, crew_modifyCrew, hr] <;> rfl
  | user j now => exact .user now
  | reply j r => exact .reply r
  | crash j => exact .crash
  | leave j =>
    rw [next]
    cases s.user? j with
    | some t => exact .nothing rfl rfl rfl
    | none =>
      refine .nothing rfl ?_ rfl
      show ((s.crew.leave j).threads[i]?).map _ = (s.crew.threads[i]?).map _
      rw [Crew.threads_leave, List.getElem?_modify]
      cases s.crew.threads[i]? with
      | none => rfl
      | some t =>
        show some (if j = i then t.leave else t).user = some t.user
        split
        · rw [t.user_leave]
        · rfl

/-! ## Flags that are set stay set -/

/-- A run that is aborted stays so. -/
theorem aborted_next (h : s.aborted = true) (choice : Choice) :
    (s.next w choice).aborted = true := by
  cases choice with
  | abort => rfl
  | controller now => exact h
  | refuse => exact h
  | user j now =>
    rw [next]
    cases s.user? j with
    | none => exact h
    | some t => exact (s.aborted_stepUser j now t).trans h
  | reply j r => exact h
  | crash j | leave j =>
    rw [next]
    cases s.user? j with
    | none => exact h
    | some t => exact h

/-- It stays so in all that follows. -/
theorem aborted_run (h : s.aborted = true) (choices : List Choice) :
    (s.run w choices).aborted = true :=
  run_induction w (p := fun s => s.aborted = true) h (fun _ choice h => aborted_next h choice)
    choices

/-! ## Interruptions -/

/-- No dispatch is cancelled in a run whose answers are none that says so. -/
theorem notMem_cancelled {choices : List Choice}
    (h : (choices.all fun choice => !(choice matches .reply _ .cancelled)) = true) (i : Nat) :
    .reply i .cancelled ∉ choices := fun hmem => by
  cases List.all_eq_true.1 h _ hmem

/-- A virtual user that is interrupted was so before, or the run is aborted, or its request has been
cancelled. -/
theorem Befalls.interrupted {choice : Choice} (h : s.Befalls w s' i choice) {u : User}
    (hu : s'.member? i = some u) (hphase : u.phase = .ended true) :
    (∃ u₀, s.member? i = some u₀ ∧ u₀.phase = .ended true) ∨ s.aborted = true ∨
      choice = .reply i .cancelled := by
  cases h with
  | nothing _ hsame => exact .inl ⟨u, hsame ▸ hu, hphase⟩
  | begins _ _ hnew =>
    obtain rfl : _ = u := Option.some.inj (hnew.symm.trans hu)
    cases hphase
  | steps now t _ ht hnext =>
    obtain rfl : _ = u := Option.some.inj (hnext.symm.trans hu)
    exact .inr (.inl (User.aborted_of_step (user?_eq_some ht).2 hphase))
  | receives r u₀ hchoice hu₀ hnext =>
    obtain rfl : _ = u := Option.some.inj (hnext.symm.trans hu)
    rcases u₀.phase_receive r with hover | ⟨rfl, -⟩ | hsame
    · rw [User.isOver, hphase] at hover
      cases hover
    · exact .inr (.inr hchoice)
    · exact .inl ⟨u₀, hu₀, hsame ▸ hphase⟩
  | crashes t _ _ hnext =>
    obtain rfl : _ = u := Option.some.inj (hnext.symm.trans hu)
    cases hphase

/-- Nobody is interrupted in a run that is not aborted and in which no request is cancelled. -/
theorem interrupted_run (hkept : s.Kept) (choices : List Choice) {u : User}
    (hu : (s.run w choices).member? i = some u) (hphase : u.phase = .ended true) :
    (∃ u₀, s.member? i = some u₀ ∧ u₀.phase = .ended true) ∨
      (s.run w choices).aborted = true ∨ .reply i .cancelled ∈ choices := by
  induction choices generalizing s with
  | nil => exact .inl ⟨u, hu, hphase⟩
  | cons choice rest ih =>
    rcases ih (hkept.next choice) hu with ⟨u₀, hu₀, hbefore⟩ | haborted | hcancelled
    · rcases (next_befalls hkept.welcomes choice).interrupted hu₀ hbefore with
        hold | haborted | rfl
      · exact .inl hold
      · exact .inr (.inl (aborted_run (aborted_next haborted choice) rest))
      · exact .inr (.inr List.mem_cons_self)
    · exact .inr (.inl haborted)
    · exact .inr (.inr (List.mem_cons_of_mem _ hcancelled))

/-- In every run an interrupted user has an abort or a cancelled request to show for it. -/
theorem interrupted_start (w : Waiting) (gens : Nat → Random.Generator) (post : Post)
    (choices : List Choice) {t : Thread}
    (ht : ((start w gens post).run w choices).crew.threads[i]? = some t)
    (hphase : t.user.phase = .ended true) :
    ((start w gens post).run w choices).aborted = true ∨ .reply i .cancelled ∈ choices := by
  have hu : ((start w gens post).run w choices).member? i = some t.user :=
    member?_eq_some.2 ⟨t, ht, rfl⟩
  rcases interrupted_run (kept_run w gens post []) choices hu hphase with ⟨u₀, hnone, -⟩ | h
  · cases hnone
  · exact h

end Scene

namespace Crew

variable {c c' : Crew}

/-- A user was told to retire if it has a standing that says so. -/
theorem isRetired_iff {i : Nat} :
    c.isRetired i = true ↔ ∃ p, c.standings[i]? = some p ∧ p.retired = true := by
  rw [isRetired_eq, Option.any_eq_true]

/-- It stays so, whichever standing is changed into one that does not undo it. -/
theorem isRetired_modify {f : Standing → Standing} {j i : Nat}
    (hf : ∀ p : Standing, p.retired = true → (f p).retired = true)
    (h : c'.standings = c.standings.modify j f) (hi : c.isRetired i = true) :
    c'.isRetired i = true := by
  obtain ⟨p, hp, hretired⟩ := isRetired_iff.1 hi
  rw [isRetired_iff, h, List.getElem?_modify, hp]
  by_cases hj : j = i
  · exact ⟨f p, by simp [hj], hf p hretired⟩
  · exact ⟨p, by simp [hj], hretired⟩

/-- Who is told to retire stays so. -/
theorem Change.isRetired (h : c.Change c') {i : Nat} (hi : c.isRetired i = true) :
    c'.isRetired i = true := by
  rcases h.standings with h | ⟨j, h⟩ | h
  · rwa [isRetired_eq, h, ← isRetired_eq]
  · exact isRetired_modify (f := Standing.tell) (fun _ _ => rfl) h hi
  · obtain ⟨p, hp, hretired⟩ := isRetired_iff.1 hi
    rw [isRetired_iff, h, List.getElem?_append_left (List.getElem?_eq_some_iff.1 hp).1]
    exact ⟨p, hp, hretired⟩

/-- It stays so while threads go on their way out. -/
theorem isRetired_leave {i : Nat} (j : Nat) (hi : c.isRetired i = true) :
    (c.leave j).isRetired i = true := by
  refine isRetired_modify (fun p hp => ?_) (c.standings_leave j) hi
  obtain ⟨retired, exit⟩ := p
  obtain rfl : retired = true := hp
  cases exit <;> rfl

end Crew

namespace Scene

variable {w : Waiting} {s s' : Scene} {i : Nat}

/-- It stays so whatever is chosen. -/
theorem isRetired_next (h : s.crew.isRetired i = true) (choice : Choice) :
    (s.next w choice).crew.isRetired i = true := by
  cases s.next_turn w choice with
  | controller now hc =>
    rw [hc]
    exact (s.controller.steps w now s.aborted).change.isRetired h
  | refuse hr =>
    rw [hr, crew_modifyCrew, Crew.isRetired_eq, Crew.standings_refuse, ← Crew.isRetired_eq]
    exact h
  | leave j _ hl =>
    rw [hl]
    exact Crew.isRetired_leave j h
  | users hu => rwa [Crew.isRetired_eq, hu.standings, ← Crew.isRetired_eq]

/-- A user that makes a step sees that it was told to retire. -/
theorem isRetired_of_user? {t : Thread} (h : s.crew.isRetired i = true) (ht : s.user? i = some t) :
    t.retired = true := by
  rw [Crew.isRetired, (user?_eq_some ht).1] at h
  exact h

end Scene

end LoadReplay
