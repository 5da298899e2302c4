import LoadReplay.Proofs.Accounts
import LoadReplay.Proofs.Life
import Mathlib.Algebra.GroupWithZero.Nat

/-!
# How soon a virtual user ends

Once the run is aborted, or the user is told to retire, each turn of a virtual user brings it closer
to its end.  How close it is can be read off its phase: `User.turnsToStop` bounds the turns that are
left after an abort, `User.requestsLeft` the requests, and `User.turnsToRetire` the turns that are
left to a user that is told to retire, its sleeps aside.

These bounds do not depend on the run, because an iteration never sends two requests without a pause
between them (`Post.paced_iteration`), and every pause that begins after an abort looks at the flag.
-/

namespace LoadReplay

/-! ## How an iteration is paced -/

/-- How many requests some moves send before their first pause. -/
def stride : List Move → Nat
  | .send _ :: moves => stride moves + 1
  | .pause _ :: _ | [] => 0

/-- There is a pause between any two requests that some moves send. -/
def Paced : List Move → Prop
  | [] => True
  | move :: moves => stride (move :: moves) ≤ 1 ∧ Paced moves

/-- With a pause between any two requests, at most one comes before the first pause. -/
theorem Paced.stride_le {moves : List Move} (h : Paced moves) : stride moves ≤ 1 := by
  cases moves with
  | nil => exact Nat.zero_le 1
  | cons move moves => exact h.1

/-- What follows a pause does not count. -/
theorem stride_append {a b : List Move} (hb : stride b = 0) : stride (a ++ b) = stride a := by
  induction a with
  | nil => exact hb
  | cons move a ih =>
    cases move with
    | pause d => rfl
    | send request => simp only [List.cons_append, stride, ih]

/-- Moves that begin with a pause may follow any others. -/
theorem Paced.append {a b : List Move} (ha : Paced a) (hb : Paced b) (hstride : stride b = 0) :
    Paced (a ++ b) := by
  induction a with
  | nil => exact hb
  | cons move a ih =>
    have hfront : stride (move :: a ++ b) ≤ 1 := by
      rw [stride_append hstride]
      exact ha.1
    exact ⟨hfront, ih ha.2⟩

namespace Post

variable (p : Post)

/-- The moves for some requests begin with a pause, unless the first request is the first one of an
iteration. -/
theorem stride_requestMoves (requests : List PreparedRequest) (r : Random.Generator) :
    stride (p.requestMoves false requests r).1 = 0 := by
  cases requests <;> rfl

/-- The requests of a group have a pause between any two. -/
theorem paced_requestMoves (first : Bool) (requests : List PreparedRequest)
    (r : Random.Generator) : Paced (p.requestMoves first requests r).1 := by
  induction requests generalizing first r with
  | nil => trivial
  | cons request rest ih =>
    have hsend (r' : Random.Generator) :
        Paced (.send request :: (p.requestMoves false rest r').1) := by
      refine ⟨?_, ih false r'⟩
      simp only [stride, p.stride_requestMoves rest r', Nat.zero_add, Nat.le_refl]
    cases first with
    | true => exact hsend r
    | false => exact ⟨Nat.zero_le 1, hsend _⟩

/-- A group has a pause and a dispatch for each request at most. -/
theorem length_requestMoves_le (first : Bool) (requests : List PreparedRequest)
    (r : Random.Generator) : (p.requestMoves first requests r).1.length ≤ 2 * requests.length := by
  induction requests generalizing first r with
  | nil => exact Nat.le_refl 0
  | cons request rest ih =>
    cases first with
    | true =>
      have hrest := ih false r
      simp only [requestMoves, if_true, List.nil_append, List.length_cons]
      omega
    | false =>
      have hrest := ih false (Random.spanBetween p.scenario.minSleep p.scenario.maxSleep r).2
      simp only [requestMoves, Bool.false_eq_true, if_false, List.cons_append, List.nil_append,
        List.length_cons]
      omega

/-- Requests that are not the first ones of an iteration come after a pause. -/
theorem stride_groupMoves (groups : List PreparedGroup) (r : Random.Generator) :
    stride (p.groupMoves false groups r).1 = 0 := by
  induction groups generalizing r with
  | nil => rfl
  | cons g rest ih =>
    simp only [groupMoves, Bool.false_and]
    rw [stride_append (ih _)]
    exact p.stride_requestMoves _ _

/-- The requests of all groups have a pause between any two. -/
theorem paced_groupMoves (first : Bool) (groups : List PreparedGroup) (r : Random.Generator) :
    Paced (p.groupMoves first groups r).1 := by
  induction groups generalizing first r with
  | nil => trivial
  | cons g rest ih =>
    simp only [groupMoves]
    cases horder : (g.order r).1 with
    | nil => exact ih _ _
    | cons request requests =>
      -- Something is sent for this group, so the next one begins with a pause.
      refine (p.paced_requestMoves _ _ _).append (ih _ _) ?_
      simp only [List.isEmpty_cons, Bool.and_false]
      exact p.stride_groupMoves _ _

/-- All groups have a pause and a dispatch for each request at most. -/
theorem length_groupMoves_le (first : Bool) (groups : List PreparedGroup) (r : Random.Generator) :
    (p.groupMoves first groups r).1.length ≤
      2 * (groups.map fun g => g.requests.length).sum := by
  induction groups generalizing first r with
  | nil => exact Nat.le_refl 0
  | cons g rest ih =>
    simp only [groupMoves, List.length_append, List.map_cons, List.sum_cons]
    have hgroup := p.length_requestMoves_le first (g.order r).1 (g.order r).2
    have hrest := ih (first && (g.order r).1.isEmpty)
      (p.requestMoves first (g.order r).1 (g.order r).2).2
    rw [(g.order_perm r).length_eq] at hgroup
    omega

/-- An iteration begins with a pause. -/
theorem stride_iteration (r : Random.Generator) : stride (p.iteration r).1 = 0 := rfl

/-- An iteration never sends two requests without a pause between them. -/
theorem paced_iteration (r : Random.Generator) : Paced (p.iteration r).1 := by
  have hlast (d : Span) : Paced [.pause d] := ⟨Nat.zero_le 1, trivial⟩
  have hgroups := p.paced_groupMoves true p.groups (Random.spanUpTo p.scenario.startJitter r).2
  exact ⟨Nat.zero_le 1, hgroups.append (hlast _) rfl⟩

/-- An iteration has as many moves as its requests, their pauses, and those at its ends. -/
theorem length_iteration_le (r : Random.Generator) :
    (p.iteration r).1.length ≤ 2 * p.size + 2 := by
  have hgroups :=
    p.length_groupMoves_le true p.groups (Random.spanUpTo p.scenario.startJitter r).2
  simp only [iteration, List.cons_append, List.length_cons, List.length_append, List.length_nil]
  rw [size]
  omega

end Post

/-! ## What lies ahead of a virtual user -/

namespace User

variable {post : Post} {w : Waiting} {v : View} {u u' : User} {e : Effect}

/-- What a virtual user still has to do within its iteration. -/
def ahead (u : User) : List Move :=
  match u.phase with
  | .moving moves | .pausing _ moves => moves
  | .sending request moves | .waiting request _ moves | .recording request _ _ moves =>
    .send request :: moves
  | .retiring | .checking | .claiming | .ended _ | .crashed => []

/-- What lies ahead of a virtual user is like a part of an iteration. -/
structure InStep (post : Post) (u : User) : Prop where
  paced : Paced u.ahead
  short : u.ahead.length ≤ 2 * post.size + 2

/-- Whoever has no moves ahead is in step. -/
theorem inStep_of_ahead_eq_nil (h : u.ahead = []) : u.InStep post :=
  ⟨by rw [h]; trivial, by rw [h]; exact Nat.zero_le _⟩

/-- Being in step is about the moves ahead. -/
theorem InStep.of_ahead_eq (h : u.InStep post) (hahead : u'.ahead = u.ahead) : u'.InStep post :=
  ⟨by rw [hahead]; exact h.paced, by rw [hahead]; exact h.short⟩

/-- It stays so when a move has been made. -/
theorem InStep.of_ahead_cons (h : u.InStep post) {move : Move}
    (hahead : u.ahead = move :: u'.ahead) : u'.InStep post := by
  obtain ⟨hpaced, hshort⟩ := h
  rw [hahead] at hpaced hshort
  exact ⟨hpaced.2, Nat.le_of_succ_le hshort⟩

/-- Every step keeps a user in step. -/
theorem InStep.acts (h : u.InStep post) (ha : u.Acts post w v u' e) : u'.InStep post := by
  cases ha with
  | claims => exact ⟨post.paced_iteration _, post.length_iteration_le _⟩
  | pauses d moves hphase =>
    have hahead : u.ahead = .pause d :: moves := by rw [ahead, hphase]
    exact h.of_ahead_cons hahead
  | records request sentAt status moves hphase =>
    have hahead : u.ahead = .send request :: moves := by rw [ahead, hphase]
    exact h.of_ahead_cons hahead
  | turns _ _ hphase | waits _ _ _ _ hphase | wakes _ _ hphase | sends _ _ hphase =>
    refine h.of_ahead_eq ?_
    rw [ahead, ahead, hphase]
  | awaits | rests => exact h
  | _ => exact inStep_of_ahead_eq_nil rfl

/-- So does an answer. -/
theorem InStep.receive (h : u.InStep post) (r : Reply) : (u.receive r).InStep post := by
  obtain ⟨index, generator, iterations, phase⟩ := u
  cases phase with
  | waiting request sentAt moves =>
    cases r with
    | status code => exact h.of_ahead_eq rfl
    | failed => exact h.of_ahead_eq rfl
    | cancelled => exact inStep_of_ahead_eq_nil rfl
  | _ => exact h

end User

/-! ## After an abort -/

/-- Whether a pause may still have its full length after an abort, because it does not look at the
flag any more. -/
def Pause.mayFinish : Pause → Bool
  | .timing _ | .over => true
  | .glance | .opening _ | .checking _ | .whole _ => false

/-- How many steps a pause makes after an abort. -/
def Pause.looksLeft : Pause → Nat
  | .opening _ => 2
  | .glance | .checking _ | .timing _ | .whole _ | .over => 1

namespace Pause

variable {p p' : Pause} {now : Span}

/-- A pause that goes on after an abort is about to look at the flag. -/
theorem eq_checking_of_aborted
    (h : p.step now true = .goesOn p' ∨ ∃ d, p.step now true = .sleeps d p') :
    ∃ deadline, p' = .checking deadline ∧ (p.mayFinish = true ∨ p.looksLeft = 2) := by
  cases p with
  | opening length =>
    rw [step] at h
    cases hadd : now.add? length with
    | none => simp [hadd] at h
    | some deadline =>
      simp only [hadd, Next.goesOn.injEq, reduceCtorEq, exists_false, or_false] at h
      exact ⟨deadline, h.symm, .inr rfl⟩
  | timing deadline =>
    rw [step] at h
    by_cases hnow : deadline ≤ now
    · simp [hnow] at h
    · simp only [hnow, if_false, reduceCtorEq, Next.sleeps.injEq, false_or] at h
      obtain ⟨d, -, hp'⟩ := h
      exact ⟨deadline, hp'.symm, .inl rfl⟩
  | _ => simp [step] at h

/-- A pause that ends whole after an abort has looked at the flag before it. -/
theorem mayFinish_of_aborted (h : p.step now true = .ends true) : p.mayFinish = true := by
  cases p with
  | opening length =>
    rw [step] at h
    cases hadd : now.add? length <;> simp [hadd] at h
  | glance | checking | whole => simp [step] at h
  | _ => rfl

/-- A pause looks at the flag at least once more. -/
theorem looksLeft_pos (p : Pause) : 1 ≤ p.looksLeft := by
  cases p <;> simp [looksLeft]

/-- A pause that begins after an abort does not end whole, and looks at most twice. -/
theorem startAny_aborted (w : Waiting) (d : Span) :
    (startAny w d).mayFinish = false ∧ (startAny w d).looksLeft ≤ 2 := by
  rw [startAny]
  split
  · exact ⟨rfl, Nat.le_succ 1⟩
  · cases w with
    | polled => exact ⟨rfl, Nat.le_refl 2⟩
    | whole => exact ⟨rfl, Nat.le_succ 1⟩

end Pause

namespace User

variable {post : Post} {w : Waiting} {v : View} {u u' : User} {e : Effect}

/-- How many requests a virtual user still sends at most when the run is aborted. -/
def requestsLeft (u : User) : Nat :=
  match u.phase with
  | .moving moves => stride moves
  | .pausing p moves => if p.mayFinish then stride moves else 0
  | .sending _ moves => stride moves + 1
  | .waiting _ _ moves | .recording _ _ _ moves => stride moves
  | .retiring | .checking | .claiming | .ended _ | .crashed => 0

/-- How many turns a virtual user still has at most when the run is aborted. -/
def turnsToStop (u : User) : Nat :=
  match u.phase with
  | .retiring => 2
  | .checking => 1
  | .claiming => 4
  | .moving moves => 4 * stride moves + 3
  | .pausing p moves => p.looksLeft + if p.mayFinish then 4 * stride moves + 3 else 0
  | .sending _ moves => 4 * stride moves + 6
  | .waiting _ _ moves => 4 * stride moves + 5
  | .recording _ _ _ moves => 4 * stride moves + 4
  | .ended _ | .crashed => 0

/-- After an abort, a virtual user sends no more requests than are left to it. -/
theorem Acts.requestsLeft (ha : u.Acts post w v u' e) (hv : v.aborted = true) :
    e.request?.toList.length + u'.requestsLeft ≤ u.requestsLeft := by
  cases ha with
  | passes h hcalm =>
    rw [hv] at hcalm
    cases hcalm
  | claims => exact Nat.zero_le _
  | pauses d moves h =>
    have hstart := (Pause.startAny_aborted w d).1
    simp [User.requestsLeft, h, hstart, Effect.request?]
  | turns request moves h =>
    simp [User.requestsLeft, h, stride, Effect.request?]
  | waits p p' moves e h he =>
    rw [hv] at he
    have hnone : e.request?.toList.length = 0 := by
      rcases he with ⟨-, rfl⟩ | ⟨d, -, rfl⟩ <;> rfl
    -- In an aborted run a pause can only go on to its next look at the flag.
    obtain ⟨deadline, rfl, -⟩ :=
      Pause.eq_checking_of_aborted (he.imp And.left fun ⟨d, hd, _⟩ => ⟨d, hd⟩)
    rw [hnone]
    exact Nat.zero_le _
  | wakes p moves h hp =>
    rw [hv] at hp
    simp [User.requestsLeft, h, Pause.mayFinish_of_aborted hp, Effect.request?]
  | sends request moves h =>
    simp [User.requestsLeft, h, Effect.request?, Nat.add_comm]
  | records request sentAt status moves h =>
    simp [User.requestsLeft, h, Effect.request?]
  | awaits | rests => exact Nat.le_of_eq (Nat.zero_add _)
  | _ => exact Nat.zero_le _

/-- After an abort, each turn leaves fewer turns to a virtual user. -/
theorem Acts.turnsToStop (ha : u.Acts post w v u' e) (hv : v.aborted = true)
    (hover : u.isOver = false) :
    u.awaited?.isNone.toNat + u'.turnsToStop ≤ u.turnsToStop := by
  have hturn : u.awaited?.isNone.toNat ≤ 1 := Bool.toNat_le _
  -- The measure falls with every turn of the user; while it waits for an answer the turn is not its
  -- own.
  cases ha with
  | passes h hcalm =>
    rw [hv] at hcalm
    cases hcalm
  | claims h =>
    simp only [User.turnsToStop, h, post.stride_iteration]
    omega
  | completes h | turns _ _ h =>
    simp only [User.turnsToStop, h, stride]
    omega
  | pauses d moves h =>
    obtain ⟨hstart, hlooks⟩ := Pause.startAny_aborted w d
    simp only [User.turnsToStop, h, hstart, Bool.false_eq_true, if_false, stride]
    omega
  | waits p p' moves e h he =>
    rw [hv] at he
    -- A pause makes at most one more look, and that look ends it.
    obtain ⟨deadline, rfl, hp⟩ :=
      Pause.eq_checking_of_aborted (he.imp And.left fun ⟨d, hd, _⟩ => ⟨d, hd⟩)
    have hlooks := p.looksLeft_pos
    have hafter :
        ({ u with phase := .pausing (.checking deadline) moves } : User).turnsToStop = 1 :=
      rfl
    rw [hafter]
    simp only [User.turnsToStop, h]
    rcases hp with hp | hp
    · rw [hp, if_pos rfl]
      omega
    · omega
  | wakes p moves h hp =>
    rw [hv] at hp
    have hlooks := p.looksLeft_pos
    simp only [User.turnsToStop, h, Pause.mayFinish_of_aborted hp, if_true]
    omega
  | cuts p moves h | overflows p moves h =>
    have hlooks := p.looksLeft_pos
    simp only [User.turnsToStop, h]
    omega
  | sends _ _ h | records _ _ _ _ h | retires h | stays h | stops h | leaves h =>
    simp only [User.turnsToStop, h]
    omega
  | awaits request sentAt moves h =>
    have hnone : u.awaited?.isNone.toNat = 0 := by rw [awaited?, h]; rfl
    omega
  | rests h =>
    rw [hover] at h
    cases h

/-- A reply to a request is a turn as well. -/
theorem turnsToStop_receive (u : User) (r : Reply) :
    u.awaited?.isSome.toNat + (u.receive r).turnsToStop ≤ u.turnsToStop ∧
      (u.receive r).requestsLeft ≤ u.requestsLeft := by
  obtain ⟨index, generator, iterations, phase⟩ := u
  cases phase with
  | waiting request sentAt moves =>
    cases r with
    | status code | failed =>
      refine ⟨?_, Nat.le_refl _⟩
      show 1 + (4 * stride moves + 4) ≤ 4 * stride moves + 5
      omega
    | cancelled =>
      refine ⟨?_, Nat.zero_le _⟩
      show 1 + 0 ≤ 4 * stride moves + 5
      omega
  | _ => exact ⟨Nat.le_of_eq (Nat.zero_add _), Nat.le_refl _⟩

/-- Whatever a virtual user is doing when the run is aborted, it sends at most one more request and
has at most eight more turns. -/
theorem InStep.stops (h : u.InStep post) : u.requestsLeft ≤ 1 ∧ u.turnsToStop ≤ 8 := by
  have hpaced := h.paced
  obtain ⟨index, generator, iterations, phase⟩ := u
  cases phase with
  | moving moves =>
    have hstride : stride moves ≤ 1 := hpaced.stride_le
    refine ⟨hstride, ?_⟩
    show 4 * stride moves + 3 ≤ 8
    omega
  | pausing p moves =>
    have hstride : stride moves ≤ 1 := hpaced.stride_le
    cases p with
    | glance | opening | checking | whole =>
      exact ⟨Nat.zero_le 1, by simp [turnsToStop, Pause.looksLeft, Pause.mayFinish]⟩
    | _ =>
      -- The pause may be at its end without another look at the flag.
      refine ⟨hstride, ?_⟩
      show 1 + (4 * stride moves + 3) ≤ 8
      omega
  | sending request moves =>
    -- No other request follows without a pause.
    have hstride : stride moves + 1 ≤ 1 := hpaced.1
    refine ⟨hstride, ?_⟩
    show 4 * stride moves + 6 ≤ 8
    omega
  | waiting request sentAt moves =>
    have hstride : stride moves + 1 ≤ 1 := hpaced.1
    refine ⟨Nat.le_of_succ_le hstride, ?_⟩
    show 4 * stride moves + 5 ≤ 8
    omega
  | recording request sentAt status moves =>
    have hstride : stride moves + 1 ≤ 1 := hpaced.1
    refine ⟨Nat.le_of_succ_le hstride, ?_⟩
    show 4 * stride moves + 4 ≤ 8
    omega
  | _ => exact ⟨Nat.zero_le 1, by simp [turnsToStop]⟩

end User

/-! ## When a user is told to retire -/

/-- How many steps a pause makes at most if it does not sleep. -/
def Pause.stepsLeft : Pause → Nat
  | .opening _ => 3
  | .checking _ | .whole _ => 2
  | .glance | .timing _ | .over => 1

namespace Pause

variable {p p' : Pause} {now : Span} {aborted : Bool}

/-- A pause has at least one step left. -/
theorem stepsLeft_pos (p : Pause) : 1 ≤ p.stepsLeft := by
  cases p <;> simp [stepsLeft]

/-- A pause takes at most three steps. -/
theorem stepsLeft_startAny_le (w : Waiting) (d : Span) : (startAny w d).stepsLeft ≤ 3 := by
  rw [startAny]
  split
  · simp [stepsLeft]
  · cases w with
    | polled => exact Nat.le_refl 3
    | whole => exact Nat.le_succ 2

/-- Going on is a step less, unless the clock is asked for a sleep. -/
theorem stepsLeft_of_goesOn (h : p.step now aborted = .goesOn p') :
    p'.stepsLeft + 1 ≤ p.stepsLeft := by
  cases p with
  | opening length =>
    rw [step] at h
    cases hadd : now.add? length with
    | none => simp [hadd] at h
    | some deadline =>
      simp only [hadd, Next.goesOn.injEq] at h
      rw [← h]
      exact Nat.le_refl 3
  | checking deadline =>
    cases aborted with
    | true => simp [step] at h
    | false =>
      simp only [step, Bool.false_eq_true, if_false, Next.goesOn.injEq] at h
      rw [← h]
      exact Nat.le_refl 2
  | timing deadline =>
    rw [step] at h
    split at h <;> cases h
  | whole length => cases aborted <;> cases h
  | _ => cases h

/-- After a sleep, a pause looks at the flag and at the clock once more. -/
theorem stepsLeft_of_sleeps {d : Span} (h : p.step now aborted = .sleeps d p') :
    p'.stepsLeft ≤ p.stepsLeft + 1 := by
  cases p with
  | opening length =>
    rw [step] at h
    split at h <;> cases h
  | timing deadline =>
    rw [step] at h
    by_cases hnow : deadline ≤ now
    · simp [hnow] at h
    · simp only [hnow, if_false, Next.sleeps.injEq] at h
      rw [← h.2]
      exact Nat.le_refl 2
  | whole length =>
    cases aborted with
    | true => simp [step] at h
    | false =>
      simp only [step, Bool.false_eq_true, if_false, Next.sleeps.injEq] at h
      rw [← h.2]
      exact Nat.le_succ_of_le (Nat.le_succ 1)
  | checking deadline => cases aborted <;> cases h
  | _ => cases h

end Pause

namespace User

variable {post : Post} {w : Waiting} {v : View} {u u' : User} {e : Effect}

/-- How many times a step sleeps. -/
def Effect.slept : Effect → Nat
  | .sleeps _ => 1
  | .nothing | .claims | .sends _ | .records _ => 0

/-- How many iterations a virtual user still begins at most when it is told to retire: one, if it
has passed the look at the flag. -/
def claimsLeft (u : User) : Nat :=
  match u.phase with
  | .checking | .claiming => 1
  | .retiring | .moving _ | .pausing _ _ | .sending _ _ | .waiting _ _ _ | .recording _ _ _ _
  | .ended _ | .crashed => 0

/-- How many turns a virtual user still has at most when it is told to retire, two for each of its
sleeps aside. -/
def turnsToRetire (size : Nat) (u : User) : Nat :=
  match u.phase with
  | .retiring => 1
  | .checking => 8 * size + 12
  | .claiming => 8 * size + 11
  | .moving moves => 4 * moves.length + 2
  | .pausing p moves => p.stepsLeft + (4 * moves.length + 2)
  | .sending _ moves => 4 * moves.length + 5
  | .waiting _ _ moves => 4 * moves.length + 4
  | .recording _ _ _ moves => 4 * moves.length + 3
  | .ended _ | .crashed => 0

/-- A virtual user that is told to retire begins no more iterations than are left to it. -/
theorem Acts.claimsLeft (ha : u.Acts post w v u' e) (hv : v.retired = true) :
    e.claimed + u'.claimsLeft ≤ u.claimsLeft := by
  cases ha with
  | stays h hstays =>
    rw [hv] at hstays
    cases hstays
  | passes h | claims h => simp [User.claimsLeft, h, Effect.claimed]
  | waits p p' moves e h he =>
    rcases he with ⟨-, rfl⟩ | ⟨d, -, rfl⟩ <;> exact Nat.zero_le _
  | awaits | rests => exact Nat.le_of_eq (Nat.zero_add _)
  | _ => exact Nat.zero_le _

/-- When a virtual user is told to retire, each turn leaves fewer turns to it, unless it sleeps. -/
theorem Acts.turnsToRetire (ha : u.Acts post w v u' e) (hv : v.retired = true)
    (hover : u.isOver = false) :
    u.awaited?.isNone.toNat + u'.turnsToRetire post.size ≤
      u.turnsToRetire post.size + 2 * e.slept := by
  have hturn : u.awaited?.isNone.toNat ≤ 1 := Bool.toNat_le _
  cases ha with
  | stays h hstays =>
    rw [hv] at hstays
    cases hstays
  | claims h =>
    have hlength := post.length_iteration_le u.generator
    simp only [User.turnsToRetire, h]
    omega
  | completes h =>
    simp only [User.turnsToRetire, h, List.length_nil]
    omega
  | pauses d moves h =>
    have hsteps := Pause.stepsLeft_startAny_le w d
    simp only [User.turnsToRetire, h, List.length_cons]
    omega
  | turns request moves h =>
    simp only [User.turnsToRetire, h, List.length_cons]
    omega
  | waits p p' moves e h he =>
    simp only [User.turnsToRetire, h]
    -- Without an abort a pause may sleep: each sleep buys two more steps, which `slept` accounts
    -- for.
    rcases he with ⟨hp, rfl⟩ | ⟨d, hp, rfl⟩
    · have hsteps := Pause.stepsLeft_of_goesOn hp
      omega
    · have hsteps := Pause.stepsLeft_of_sleeps hp
      simp only [Effect.slept]
      omega
  | wakes p moves h | cuts p moves h | overflows p moves h =>
    have hsteps := p.stepsLeft_pos
    simp only [User.turnsToRetire, h]
    omega
  | retires h | stops h | passes h | leaves h | sends _ _ h | records _ _ _ _ h =>
    simp only [User.turnsToRetire, h]
    omega
  | awaits request sentAt moves h =>
    have hnone : u.awaited?.isNone.toNat = 0 := by rw [awaited?, h]; rfl
    omega
  | rests h =>
    rw [hover] at h
    cases h

/-- An answer counts as the turn of whoever waited for it. -/
theorem turnsToRetire_receive (size : Nat) (u : User) (r : Reply) :
    u.awaited?.isSome.toNat + (u.receive r).turnsToRetire size ≤ u.turnsToRetire size ∧
      (u.receive r).claimsLeft ≤ u.claimsLeft := by
  obtain ⟨index, generator, iterations, phase⟩ := u
  cases phase with
  | waiting request sentAt moves =>
    cases r with
    | status code | failed =>
      refine ⟨?_, Nat.zero_le _⟩
      show 1 + (4 * moves.length + 3) ≤ 4 * moves.length + 4
      omega
    | cancelled =>
      refine ⟨?_, Nat.zero_le _⟩
      show 1 + 0 ≤ 4 * moves.length + 4
      omega
  | _ => exact ⟨Nat.le_of_eq (Nat.zero_add _), Nat.le_refl _⟩

/-- Whatever a virtual user is doing when it is told to retire, the turns that are left to it are
those of one iteration. -/
theorem InStep.retires (h : u.InStep post) : u.turnsToRetire post.size ≤ 8 * post.size + 13 := by
  have hshort := h.short
  obtain ⟨index, generator, iterations, phase⟩ := u
  cases phase with
  | moving moves =>
    replace hshort : moves.length ≤ 2 * post.size + 2 := hshort
    show 4 * moves.length + 2 ≤ 8 * post.size + 13
    omega
  | pausing p moves =>
    replace hshort : moves.length ≤ 2 * post.size + 2 := hshort
    have hsteps : p.stepsLeft ≤ 3 := by cases p <;> simp [Pause.stepsLeft]
    show p.stepsLeft + (4 * moves.length + 2) ≤ 8 * post.size + 13
    omega
  | sending _ moves | waiting _ _ moves | recording _ _ _ moves =>
    replace hshort : moves.length + 1 ≤ 2 * post.size + 2 := hshort
    simp only [turnsToRetire]
    omega
  | _ =>
    simp only [turnsToRetire]
    omega

end User

end LoadReplay
