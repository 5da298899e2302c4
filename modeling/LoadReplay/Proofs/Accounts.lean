import LoadReplay.Proofs.Iteration
import LoadReplay.Run.User

/-!
# What a virtual user owes

A virtual user has claimed as many iterations as it has completed, and one more while it is within
an iteration.  Within an iteration, what it has recorded and what it still sends make up the
requests of all groups (`User.Account`).  No step of a virtual user breaks this, whatever the clock
and the flags show.
-/

namespace LoadReplay

/-- Only an abort cuts a pause short. -/
theorem Pause.aborted_of_ends {p : Pause} {now : Span} {aborted : Bool}
    (h : p.step now aborted = .ends false) : aborted = true := by
  cases aborted with
  | true => rfl
  | false =>
    cases p with
    | opening length =>
      rw [Pause.step] at h
      split at h <;> cases h
    | timing deadline =>
      rw [Pause.step] at h
      split at h <;> cases h
    | _ => cases h

namespace User

/-- How many iterations a step takes. -/
def Effect.claimed : Effect → Nat
  | .claims => 1
  | .nothing | .sleeps _ | .sends _ | .records _ => 0

/-- How many samples a step records. -/
def Effect.recorded : Effect → Nat
  | .records _ => 1
  | .nothing | .claims | .sleeps _ | .sends _ => 0

/-- What a virtual user has claimed and recorded, if each iteration sends `size` requests. -/
def Account (size : Nat) (u : User) (claimed recorded : Nat) : Prop :=
  match u.phase with
  | .retiring | .checking | .claiming | .ended false =>
    claimed = u.iterations ∧ recorded = u.iterations * size
  | .moving moves | .pausing _ moves =>
    claimed = u.iterations + 1 ∧ recorded + (sent moves).length = (u.iterations + 1) * size
  | .sending _ moves | .waiting _ _ moves | .recording _ _ _ moves =>
    claimed = u.iterations + 1 ∧ recorded + ((sent moves).length + 1) = (u.iterations + 1) * size
  | .ended true | .crashed => u.iterations ≤ claimed ∧ claimed ≤ u.iterations + 1

variable {post : Post} {w : Waiting} {v : View} {u : User} {size claimed recorded : Nat}

/-- A user that was just started has nothing on its account. -/
theorem account_new (size index : Nat) (generator : Random.Generator) :
    (User.new index generator).Account size 0 0 :=
  ⟨rfl, (Nat.zero_mul _).symm⟩

/-- A virtual user never has more than one iteration open. -/
theorem Account.bounds (h : u.Account size claimed recorded) :
    u.iterations ≤ claimed ∧ claimed ≤ u.iterations + 1 := by
  rw [Account] at h
  split at h <;> omega

/-- Within a pause nothing is claimed or recorded. -/
theorem Account.pause {moves : List Move} (next : Pause.Next)
    (hclaimed : claimed = u.iterations + 1)
    (hrecorded : recorded + (sent moves).length = (u.iterations + 1) * size) :
    ({ u with phase := (pauseNext moves next).1 } : User).Account size
      (claimed + (pauseNext moves next).2.claimed)
      (recorded + (pauseNext moves next).2.recorded) := by
  match next with
  | .goesOn _ | .sleeps _ _ | .ends true => exact ⟨hclaimed, hrecorded⟩
  | .ends false | .overflows =>
    show u.iterations ≤ claimed ∧ claimed ≤ u.iterations + 1
    omega

/-- Each step keeps the account. -/
theorem Account.step (h : u.Account post.size claimed recorded) :
    (u.step post w v).1.Account post.size (claimed + (u.step post w v).2.claimed)
      (recorded + (u.step post w v).2.recorded) := by
  obtain ⟨index, generator, iterations, phase⟩ := u
  cases phase with
  | retiring =>
    show Account _ { index, generator, iterations, phase := _ } _ _
    cases v.retired <;> exact h
  | checking =>
    show Account _ { index, generator, iterations, phase := _ } _ _
    cases v.aborted with
    | false => exact h
    | true =>
      -- An abort that is seen here stops the user between two iterations.
      obtain ⟨rfl, -⟩ := h
      exact ⟨Nat.le_refl _, Nat.le_succ _⟩
  | claiming =>
    rw [User.step]
    cases v.granted with
    | false => exact h
    | true =>
      obtain ⟨rfl, rfl⟩ := h
      refine ⟨rfl, ?_⟩
      show claimed * post.size + (sent (post.iteration generator).1).length =
        (claimed + 1) * post.size
      rw [post.length_sent_iteration, Nat.succ_mul]
  | moving moves =>
    match moves with
    | [] =>
      obtain ⟨hclaimed, hrecorded⟩ := h
      exact ⟨hclaimed, hrecorded⟩
    | .pause d :: moves => exact h
    | .send request :: moves => exact h
  | pausing p moves =>
    exact Account.pause (u := ⟨index, generator, iterations, .pausing p moves⟩) _ h.1 h.2
  | sending request moves => exact h
  | waiting request sentAt moves => exact h
  | recording request sentAt status moves =>
    obtain ⟨hclaimed, hrecorded⟩ := h
    refine ⟨hclaimed, ?_⟩
    show recorded + 1 + (sent moves).length = (iterations + 1) * post.size
    rw [← hrecorded]
    omega
  | ended interrupted => exact h
  | crashed => exact h

/-- A reply leaves the account as it is. -/
theorem Account.receive (h : u.Account size claimed recorded) (r : Reply) :
    (u.receive r).Account size claimed recorded := by
  obtain ⟨index, generator, iterations, phase⟩ := u
  cases phase with
  | waiting request sentAt moves =>
    cases r with
    | status code => exact h
    | failed => exact h
    | cancelled =>
      -- And one that cancels a request stops it within an iteration.
      obtain ⟨hclaimed, -⟩ := h
      show iterations ≤ claimed ∧ claimed ≤ iterations + 1
      rw [hclaimed]
      exact ⟨Nat.le_succ _, Nat.le_refl _⟩
  | _ => exact h

/-- An error of the program leaves the account as it is. -/
theorem Account.crash (h : u.Account size claimed recorded) :
    u.crash.Account size claimed recorded :=
  h.bounds

/-! ## How a virtual user ends -/

/-- A user that has ended reports what it has completed. -/
theorem report?_eq_some {r : UserReport} :
    u.report? = some r ↔ u.phase = .ended r.interrupted ∧ r.iterations = u.iterations := by
  obtain ⟨iterations, interrupted⟩ := r
  rw [report?]
  split
  · rename_i b hphase
    rw [hphase, Option.some.injEq, UserReport.mk.injEq, Phase.ended.injEq]
    exact ⟨fun h => ⟨h.2, h.1.symm⟩, fun h => ⟨h.2.symm, h.1⟩⟩
  · rename_i hphase
    exact ⟨fun h => (by cases h), fun h => absurd h.1 (hphase _)⟩

/-- Only an abort interrupts a virtual user. -/
theorem aborted_of_step (hover : u.isOver = false) (h : (u.step post w v).1.phase = .ended true) :
    v.aborted = true := by
  obtain ⟨index, generator, iterations, phase⟩ := u
  cases phase with
  | retiring =>
    replace h : (if v.retired then Phase.ended false else .checking) = .ended true := h
    split at h <;> cases h
  | checking =>
    replace h : (if v.aborted then Phase.ended true else .claiming) = .ended true := h
    split at h
    · assumption
    · cases h
  | claiming =>
    rw [User.step] at h
    cases hg : v.granted <;> simp [hg] at h
  | moving moves =>
    match moves with
    | [] | .pause d :: moves | .send request :: moves => cases h
  | pausing p moves =>
    replace h : (pauseNext moves (p.step v.now v.aborted)).1 = .ended true := h
    match hn : p.step v.now v.aborted with
    | .ends false => exact Pause.aborted_of_ends hn
    | .goesOn _ | .sleeps _ _ | .ends true | .overflows =>
      rw [hn] at h
      cases h
  | ended | crashed => cases hover
  | _ => cases h

/-- A virtual user that ends by itself was told to retire, or there was no iteration left. -/
theorem ends_of_step (hover : u.isOver = false) (h : (u.step post w v).1.phase = .ended false) :
    v.retired = true ∨ v.granted = false := by
  obtain ⟨index, generator, iterations, phase⟩ := u
  -- Only two looks can end a user in good order: at its flag and at the budget.
  cases phase with
  | retiring =>
    replace h : (if v.retired then Phase.ended false else .checking) = .ended false := h
    split at h
    · exact .inl ‹_›
    · cases h
  | checking =>
    replace h : (if v.aborted then Phase.ended true else .claiming) = .ended false := h
    split at h <;> cases h
  | claiming =>
    rw [User.step] at h
    cases hg : v.granted with
    | false => exact .inr rfl
    | true => simp [hg] at h
  | moving moves =>
    match moves with
    | [] | .pause d :: moves | .send request :: moves => cases h
  | pausing p moves =>
    replace h : (pauseNext moves (p.step v.now v.aborted)).1 = .ended false := h
    match hn : p.step v.now v.aborted with
    | .goesOn _ | .sleeps _ _ | .ends true | .ends false | .overflows =>
      rw [hn] at h
      cases h
  | ended | crashed => cases hover
  | _ => cases h

/-- A virtual user that claims has been granted an iteration. -/
theorem granted_of_claims (h : (u.step post w v).2 = .claims) : v.granted = true := by
  obtain ⟨index, generator, iterations, phase⟩ := u
  cases phase with
  | claiming =>
    rw [User.step] at h
    cases hg : v.granted with
    | true => rfl
    | false => simp [hg] at h
  | moving moves =>
    match moves with
    | [] | .pause d :: moves | .send request :: moves => cases h
  | pausing p moves =>
    replace h : (pauseNext moves (p.step v.now v.aborted)).2 = .claims := h
    match hn : p.step v.now v.aborted with
    | .goesOn _ | .sleeps _ _ | .ends true | .ends false | .overflows =>
      rw [hn] at h
      cases h
  | _ => cases h

/-- Nothing but a cancelled request makes a reply the end of a virtual user. -/
theorem phase_receive (u : User) (r : Reply) :
    (u.receive r).isOver = false ∨ r = .cancelled ∧ (u.receive r).phase = .ended true ∨
      u.receive r = u := by
  obtain ⟨index, generator, iterations, phase⟩ := u
  cases phase with
  | waiting request sentAt moves =>
    cases r with
    | status code => exact .inl rfl
    | failed => exact .inl rfl
    | cancelled => exact .inr (.inl ⟨rfl, rfl⟩)
  | _ => exact .inr (.inr rfl)

end User

end LoadReplay
