import LoadReplay.Proofs.Accounts
import LoadReplay.Proofs.Draws
import LoadReplay.Proofs.Haste

/-!
# How requests are spaced

Between two requests an iteration pauses for a length that is drawn from the bounds of the scenario,
across groups as well, and after its last request it pauses for the iteration pause
(`Post.spaces_iteration`).  A virtual user makes the pauses with their full length, or it ends.  So
what lies ahead of it says how soon it can send its next request (`User.SendsFrom`), and each of its
steps keeps to that.

Moments are numbers of nanoseconds here, because sums of spans may leave their range.
-/

namespace LoadReplay

/-! ## The pauses of an iteration -/

/-- How long the pauses last that come before the first request. -/
def lead : List Move → Nat
  | .pause d :: moves => d.nanos + lead moves
  | .send _ :: _ | [] => 0

/-- Whether some moves send a request. -/
def sendsMore (moves : List Move) : Bool := !(sent moves).isEmpty

/-- The least time from the end of a request to the next one; `more` says whether the next one
belongs to the same iteration. -/
def Scenario.gap (s : Scenario) (more : Bool) : Span :=
  if more then s.minSleep else s.iterationPause

namespace Scenario

variable {s : Scenario}

/-- Whether some moves may follow a request. -/
def MayFollow (s : Scenario) (moves : List Move) : Prop :=
  (s.gap (sendsMore moves)).nanos ≤ lead moves

/-- Whether after every request there is time enough to the next one. -/
def Spaces (s : Scenario) : List Move → Prop
  | [] => True
  | .pause _ :: moves => s.Spaces moves
  | .send _ :: moves => s.MayFollow moves ∧ s.Spaces moves

/-- The moves behind the first one are spaced too. -/
theorem Spaces.tail {move : Move} {moves : List Move} (h : s.Spaces (move :: moves)) :
    s.Spaces moves := by
  cases move with
  | pause d => exact h
  | send request => exact h.2

end Scenario

namespace Post

variable {p : Post} {rest : List Move}

/-- Some requests may come before anything that may follow a request. -/
theorem spaces_requestMoves (hfits : p.scenario.minSleep.nanos < 2 ^ 64)
    (hrest : p.scenario.MayFollow rest ∧ p.scenario.Spaces rest)
    (requests : List PreparedRequest) (r : Random.Generator) :
    p.scenario.MayFollow ((p.requestMoves false requests r).1 ++ rest) ∧
      ∀ first, p.scenario.Spaces ((p.requestMoves first requests r).1 ++ rest) := by
  induction requests generalizing r with
  | nil => exact ⟨hrest.1, fun _ => hrest.2⟩
  | cons request requests ih =>
    constructor
    · have hdrawn := Random.le_spanBetween hfits p.scenario.maxSleep r
      show p.scenario.minSleep.nanos ≤
        (Random.spanBetween p.scenario.minSleep p.scenario.maxSleep r).1.nanos + 0
      exact hdrawn
    · intro first
      cases first with
      | true => exact ⟨(ih r).1, (ih r).2 false⟩
      | false =>
        have hlater := ih (Random.spanBetween p.scenario.minSleep p.scenario.maxSleep r).2
        exact ⟨hlater.1, hlater.2 false⟩

/-- The requests of all groups are spaced, and what follows them may follow. -/
theorem spaces_groupMoves (hfits : p.scenario.minSleep.nanos < 2 ^ 64)
    (hrest : p.scenario.MayFollow rest ∧ p.scenario.Spaces rest) (groups : List PreparedGroup)
    (r : Random.Generator) :
    p.scenario.MayFollow ((p.groupMoves false groups r).1 ++ rest) ∧
      ∀ first, p.scenario.Spaces ((p.groupMoves first groups r).1 ++ rest) := by
  induction groups generalizing r with
  | nil => exact ⟨hrest.1, fun _ => hrest.2⟩
  | cons g groups ih =>
    rcases horder : g.order r with ⟨order, r₁⟩
    have hmoves (first : Bool) : (p.groupMoves first (g :: groups) r).1 ++ rest =
        (p.requestMoves first order r₁).1 ++ ((p.groupMoves (first && order.isEmpty) groups
          (p.requestMoves first order r₁).2).1 ++ rest) := by
      simp only [groupMoves, horder, List.append_assoc]
    cases order with
    | nil =>
      have hsame (first : Bool) : (p.groupMoves first (g :: groups) r).1 ++ rest =
          (p.groupMoves first groups r₁).1 ++ rest := by
        simp only [hmoves, requestMoves, List.isEmpty_nil, Bool.and_true, List.nil_append]
      rw [hsame]
      exact ⟨(ih r₁).1, fun first => by rw [hsame]; exact (ih r₁).2 first⟩
    | cons request requests =>
      -- Something is sent for this group, so there is a pause before the next one.
      have hlater (first : Bool) := spaces_requestMoves hfits
        ⟨(ih (p.requestMoves first (request :: requests) r₁).2).1,
          (ih (p.requestMoves first (request :: requests) r₁).2).2 false⟩ (request :: requests) r₁
      simp only [hmoves, List.isEmpty_cons, Bool.and_false]
      exact ⟨(hlater false).1, fun first => (hlater first).2 first⟩

/-- **After every request of an iteration there is time enough to the next one.** -/
theorem spaces_iteration (hfits : p.scenario.minSleep.nanos < 2 ^ 64) (r : Random.Generator) :
    p.scenario.Spaces (p.iteration r).1 := by
  have hlast : p.scenario.MayFollow [.pause p.scenario.iterationPause] ∧
      p.scenario.Spaces [.pause p.scenario.iterationPause] :=
    ⟨Nat.le_refl (p.scenario.iterationPause.nanos + 0), trivial⟩
  exact (spaces_groupMoves hfits hlast p.groups (Random.spanUpTo p.scenario.startJitter r).2).2 true

end Post

/-! ## How soon a pause ends -/

namespace Pause

variable {w : Waiting} {latest awake t : Nat} {now : Span} {aborted : Bool} {p p' : Pause}

/-- Whether a pause that has its full length does not end before a moment.  The clock has shown
`latest`; who sleeps in one go does not go on before `awake`. -/
def EndsFrom (w : Waiting) (latest awake t : Nat) : Pause → Prop
  | .glance => t ≤ latest
  | .opening length => t ≤ latest + length.nanos
  | .checking deadline | .timing deadline => t ≤ deadline.nanos
  | .whole length => w = .whole ∧ t ≤ latest + length.nanos
  | .over => w = .whole ∧ t ≤ awake

/-- A pause that is begun now ends no sooner than its length from now. -/
theorem endsFrom_startAny {d : Span} (h : t ≤ latest + d.nanos) :
    (startAny w d).EndsFrom w latest awake t := by
  rw [startAny]
  split
  · rename_i hzero
    have hnone : d.nanos = 0 := eq_of_beq hzero
    rwa [hnone, Nat.add_zero] at h
  · cases w with
    | polled => exact h
    | whole => exact ⟨rfl, h⟩

/-- It does so however late it gets. -/
theorem EndsFrom.mono {latest' : Nat} (h : p.EndsFrom w latest awake t) (hlate : latest ≤ latest') :
    p.EndsFrom w latest' awake t := by
  cases p with
  | glance => exact Nat.le_trans h hlate
  | opening length => exact Nat.le_trans h (Nat.add_le_add_right hlate _)
  | whole length => exact ⟨h.1, Nat.le_trans h.2 (Nat.add_le_add_right hlate _)⟩
  | _ => exact h

/-- Going on brings no pause nearer than the clock. -/
theorem EndsFrom.goesOn (h : p.EndsFrom w latest awake t) (hlate : latest ≤ now.nanos)
    (hp : p.step now aborted = .goesOn p') : p'.EndsFrom w now.nanos awake t := by
  cases p with
  | opening length =>
    rw [step] at hp
    cases hadd : now.add? length with
    | none =>
      rw [hadd] at hp
      cases hp
    | some deadline =>
      rw [hadd] at hp
      cases hp
      show t ≤ deadline.nanos
      rw [Span.add?_eq_some hadd]
      exact Nat.le_trans h (Nat.add_le_add_right hlate _)
  | checking deadline =>
    rw [step] at hp
    split at hp
    · cases hp
    · cases hp
      exact h
  | timing deadline | whole length =>
    rw [step] at hp
    split at hp <;> cases hp
  | _ => cases hp

/-- After its only sleep, a pause in one go is over. -/
theorem EndsFrom.sleeps {d : Span} (h : p.EndsFrom w latest awake t) (hlate : latest ≤ now.nanos)
    (hp : p.step now aborted = .sleeps d p') :
    p'.EndsFrom w now.nanos (now.nanos + d.nanos) t := by
  cases p with
  | timing deadline =>
    rw [step] at hp
    split at hp
    · cases hp
    · cases hp
      exact h
  | whole length =>
    rw [step] at hp
    split at hp
    · cases hp
    · cases hp
      exact ⟨h.1, Nat.le_trans h.2 (Nat.add_le_add_right hlate _)⟩
  | opening length =>
    rw [step] at hp
    split at hp <;> cases hp
  | checking deadline =>
    rw [step] at hp
    split at hp <;> cases hp
  | _ => cases hp

/-- When a pause has ended whole, its time is over. -/
theorem EndsFrom.ends (h : p.EndsFrom w latest awake t) (hlate : latest ≤ now.nanos)
    (hawake : w = .whole → awake ≤ now.nanos) (hp : p.step now aborted = .ends true) :
    t ≤ now.nanos := by
  cases p with
  | glance => exact Nat.le_trans h hlate
  | timing deadline =>
    rw [step] at hp
    split at hp
    · rename_i hover
      exact Nat.le_trans h hover
    · cases hp
  | opening length =>
    rw [step] at hp
    split at hp <;> cases hp
  | checking deadline | whole length =>
    rw [step] at hp
    split at hp <;> cases hp
  | _ => exact Nat.le_trans h.2 (hawake h.1)

end Pause

/-! ## How soon a virtual user sends -/

namespace User

variable {post : Post} {w : Waiting} {v : View} {u u' : User} {e : Effect} {latest awake t : Nat}

/-- Until when a virtual user sleeps at least, after a step. -/
def Effect.wakesAt (now : Span) (before : Nat) : Effect → Nat
  | .sleeps d => now.nanos + d.nanos
  | .nothing | .claims | .sends _ | .records _ => before

/-- Whether a virtual user does not send its next request before a moment, or did not send the one
that is on its way. -/
def SendsFrom (w : Waiting) (latest awake t : Nat) (u : User) : Prop :=
  match u.phase with
  | .retiring | .checking | .claiming | .sending _ _ => t ≤ latest
  | .moving moves => t ≤ latest + lead moves
  | .pausing p moves => p.EndsFrom w latest awake (t - lead moves)
  | .waiting _ sentAt _ | .recording _ sentAt _ _ => t ≤ sentAt.nanos
  | .ended _ | .crashed => True

/-- Whether the request that is on its way was sent before a moment. -/
def SentBy (latest : Nat) (u : User) : Prop :=
  match u.phase with
  | .waiting _ sentAt _ | .recording _ sentAt _ _ => sentAt.nanos ≤ latest
  | _ => True

/-- A user that is over sends nothing. -/
theorem sendsFrom_of_isOver (h : u.isOver = true) : u.SendsFrom w latest awake t := by
  rw [isOver] at h
  rw [SendsFrom]
  split at h
  · rename_i hphase
    rw [hphase]
    trivial
  · rename_i hphase
    rw [hphase]
    trivial
  · cases h

/-- Until the next sample is recorded, every step keeps to the moment. -/
theorem SendsFrom.acts (h : u.SendsFrom w latest awake t) (ha : u.Acts post w v u' e)
    (hlate : latest ≤ v.now.nanos) (hawake : w = .whole → awake ≤ v.now.nanos)
    (hrecords : e.sample? = none) :
    u'.SendsFrom w v.now.nanos (e.wakesAt v.now awake) t := by
  rw [SendsFrom] at h
  -- The bound on the next request is a clock reading and the pauses that are still ahead; each rule
  -- takes one of them up or leaves them as they are.
  cases ha with
  | retires | stops | leaves | cuts | overflows => trivial
  | stays hphase | passes hphase | turns _ _ hphase =>
    rw [hphase] at h
    exact Nat.le_trans h hlate
  | claims hphase =>
    rw [hphase] at h
    exact Nat.le_trans h (Nat.le_add_right_of_le hlate)
  | completes hphase =>
    rw [hphase] at h
    exact Nat.le_trans h hlate
  | pauses d moves hphase =>
    rw [hphase] at h
    replace h : t ≤ latest + (d.nanos + lead moves) := h
    have hend : t - lead moves ≤ v.now.nanos + d.nanos := by omega
    exact Pause.endsFrom_startAny hend
  | waits p p' moves e hphase he =>
    rw [hphase] at h
    rcases he with ⟨hp, rfl⟩ | ⟨d, hp, rfl⟩
    · exact h.goesOn hlate hp
    · exact h.sleeps hlate hp
  | wakes p moves hphase hp =>
    rw [hphase] at h
    have hend := h.ends hlate hawake hp
    show t ≤ v.now.nanos + lead moves
    omega
  | sends request moves hphase =>
    rw [hphase] at h
    exact Nat.le_trans h hlate
  | records => cases hrecords
  | awaits request sentAt moves hphase =>
    rw [SendsFrom, hphase]
    rw [hphase] at h
    exact h
  | rests hover => exact sendsFrom_of_isOver hover

/-- A user sends no sooner, however late it gets. -/
theorem SendsFrom.mono {latest' : Nat} (h : u.SendsFrom w latest awake t)
    (hlate : latest ≤ latest') : u.SendsFrom w latest' awake t := by
  rw [SendsFrom] at h ⊢
  match hphase : u.phase with
  | .retiring | .checking | .claiming | .sending _ _ =>
    rw [hphase] at h
    exact Nat.le_trans h hlate
  | .moving moves =>
    rw [hphase] at h
    exact Nat.le_trans h (Nat.add_le_add_right hlate _)
  | .pausing p moves =>
    rw [hphase] at h
    exact h.mono hlate
  | .waiting _ _ _ | .recording _ _ _ _ =>
    rw [hphase] at h
    exact h
  | .ended _ | .crashed => trivial

/-- What was sent by some moment was sent by any later one. -/
theorem SentBy.mono {latest' : Nat} (h : u.SentBy latest) (hlate : latest ≤ latest') :
    u.SentBy latest' := by
  rw [SentBy] at h ⊢
  split
  · rename_i hphase
    rw [hphase] at h
    exact Nat.le_trans h hlate
  · rename_i hphase
    rw [hphase] at h
    exact Nat.le_trans h hlate
  · trivial

/-- Whatever a user has sent was sent by the reading of its last step. -/
theorem SentBy.acts (h : u.SentBy latest) (ha : u.Acts post w v u' e)
    (hlate : latest ≤ v.now.nanos) : u'.SentBy v.now.nanos := by
  cases ha with
  | sends => exact Nat.le_refl _
  | awaits | rests => exact h.mono hlate
  | _ => trivial

end User

end LoadReplay
