import LoadReplay.Proofs.Life

/-!
# What a virtual user asks for

What a virtual user is going to ask the clock and the target for, if nothing stops it, is fixed by
its generator: the moves of one iteration after another (`Post.replay`), without the pauses of no
length.  What it has asked for at some moment is as much of it as the phase of the user says
(`User.Follows`), whatever it saw of the run and whatever replies it got.

So two lives that began with the same generator ask for the same, as far as they both go
(`Life.asked_comparable`).
-/

namespace LoadReplay

/-! ## Moves that ask for something -/

/-- Whether a move asks the clock or the target for something.  A pause of no length does not. -/
def Move.asks : Move → Bool
  | .pause d => !d.isZero
  | .send _ => true

/-- The moves that ask for something. -/
def asking (moves : List Move) : List Move := moves.filter Move.asks

@[simp] theorem asking_nil : asking [] = [] := rfl

@[simp] theorem asking_send (request : PreparedRequest) (moves : List Move) :
    asking (.send request :: moves) = .send request :: asking moves := rfl

@[simp] theorem asking_append (a b : List Move) : asking (a ++ b) = asking a ++ asking b :=
  List.filter_append a b

/-- What is left out sends nothing. -/
@[simp] theorem sent_asking (moves : List Move) : sent (asking moves) = sent moves := by
  induction moves with
  | nil => rfl
  | cons move rest ih =>
    cases move with
    | send request => rw [asking_send, sent_send, sent_send, ih]
    | pause d =>
      rw [sent_pause, ← ih, asking, List.filter_cons]
      split
      · rfl
      · rfl

/-- A pause is asked for if it has a length. -/
theorem User.asks?_pause {u : User} {d : Span} {moves : List Move}
    (h : u.phase = .moving (.pause d :: moves)) :
    u.asks?.toList ++ asking moves = asking (.pause d :: moves) := by
  have hasks : u.asks? = if d.isZero then none else some (.pause d) := by rw [User.asks?, h]
  rw [hasks, asking, asking, List.filter_cons, Move.asks]
  cases d.isZero <;> rfl

/-! ## Iteration after iteration -/

/-- The moves of some iterations, one after another, and the generator after them. -/
def Post.replay (p : Post) (r : Random.Generator) : Nat → List Move × Random.Generator
  | 0 => ([], r)
  | n + 1 =>
    let before := p.replay r n
    let next := p.iteration before.2
    (before.1 ++ next.1, next.2)

namespace Post

variable (p : Post) (r : Random.Generator)

/-- One iteration more follows the others. -/
theorem replay_succ (n : Nat) :
    (p.replay r (n + 1)).1 = (p.replay r n).1 ++ (p.iteration (p.replay r n).2).1 := rfl

/-- What some iterations ask for. -/
def demand (n : Nat) : List Move := asking (p.replay r n).1

/-- What it asks for follows what they ask for. -/
theorem demand_succ (n : Nat) :
    p.demand r (n + 1) = p.demand r n ++ asking (p.iteration (p.replay r n).2).1 := by
  rw [demand, replay_succ, asking_append, demand]

/-- Further iterations leave what the first ones ask for as it is. -/
theorem demand_mono {n m : Nat} (h : n ≤ m) : p.demand r n <+: p.demand r m := by
  induction h with
  | refl => exact List.prefix_refl _
  | step _ ih =>
    rw [demand_succ]
    exact ih.trans (List.prefix_append _ _)

/-- Every iteration sends each request once. -/
theorem length_sent_replay (n : Nat) : (sent (p.replay r n).1).length = n * p.size := by
  induction n with
  | zero => exact (Nat.zero_mul _).symm
  | succ n ih =>
    rw [replay_succ, sent_append, List.length_append, ih, length_sent_iteration, Nat.succ_mul]

/-- Pauses of no length are left out of what is asked for, and no request is. -/
theorem length_sent_demand (n : Nat) : (sent (p.demand r n)).length = n * p.size := by
  rw [demand, sent_asking, length_sent_replay]

end Post

/-! ## Where a virtual user is in it -/

namespace User

/-- What a virtual user has asked for when it has completed some iterations and has yet to make some
moves of the next one. -/
structure Within (post : Post) (r : Random.Generator) (iterations : Nat)
    (generator : Random.Generator) (asked moves : List Move) : Prop where
  complete : asked ++ asking moves = post.demand r (iterations + 1)
  begun : post.demand r iterations <+: asked
  generator : generator = (post.replay r (iterations + 1)).2

/-- What a virtual user that began with a generator has asked for so far. -/
def Follows (post : Post) (r : Random.Generator) (u : User) (asked : List Move) : Prop :=
  match u.phase with
  | .retiring | .checking | .claiming =>
    asked = post.demand r u.iterations ∧ u.generator = (post.replay r u.iterations).2
  | .moving moves | .pausing _ moves | .waiting _ _ moves | .recording _ _ _ moves =>
    Within post r u.iterations u.generator asked moves
  | .sending request moves =>
    Within post r u.iterations u.generator asked (.send request :: moves)
  | .ended false => asked = post.demand r u.iterations
  | .ended true | .crashed =>
    post.demand r u.iterations <+: asked ∧ asked <+: post.demand r (u.iterations + 1)

variable {post : Post} {r : Random.Generator} {u : User} {asked : List Move}

/-- Within an iteration a user has asked for all before it and for no more than all of it. -/
theorem Within.bounds {n : Nat} {generator : Random.Generator} {moves : List Move}
    (h : Within post r n generator asked moves) :
    post.demand r n <+: asked ∧ asked <+: post.demand r (n + 1) :=
  ⟨h.begun, ⟨_, h.complete⟩⟩

/-- A virtual user has asked for all of the iterations that it has completed, and for nothing beyond
the next one. -/
theorem Follows.bounds (h : u.Follows post r asked) :
    post.demand r u.iterations <+: asked ∧ asked <+: post.demand r (u.iterations + 1) := by
  have hbetween (ha : asked = post.demand r u.iterations) :
      post.demand r u.iterations <+: asked ∧ asked <+: post.demand r (u.iterations + 1) := by
    rw [ha]
    exact ⟨List.prefix_refl _, post.demand_mono r (Nat.le_succ _)⟩
  rw [Follows] at h
  split at h
  · exact hbetween h.1
  · exact hbetween h.1
  · exact hbetween h.1
  · exact h.bounds
  · exact h.bounds
  · exact h.bounds
  · exact h.bounds
  · exact h.bounds
  · exact hbetween h
  · exact h
  · exact h

/-- Whatever a virtual user does in a step, it asks for what comes next. -/
theorem Follows.acts {w : Waiting} {v : View} {u' : User} {e : Effect}
    (h : u.Follows post r asked) (ha : u.Acts post w v u' e) :
    u'.Follows post r (asked ++ u.asks?.toList) := by
  obtain ⟨index, generator, iterations, phase⟩ := u
  -- Only two kinds of steps ask for something.
  have hnothing (hn : (⟨index, generator, iterations, phase⟩ : User).asks? = none) :
      asked ++ (⟨index, generator, iterations, phase⟩ : User).asks?.toList = asked := by
    rw [hn]
    exact List.append_nil _
  cases ha with
  | retires hphase | leaves hphase =>
    subst hphase
    rw [hnothing rfl]
    exact h.1
  | stays hphase | passes hphase | turns _ _ hphase | waits _ _ _ _ hphase | wakes _ _ hphase
  | records _ _ _ _ hphase | awaits _ _ _ hphase =>
    subst hphase
    rw [hnothing rfl]
    exact h
  | stops hphase | cuts _ _ hphase | overflows _ _ hphase =>
    subst hphase
    rw [hnothing rfl]
    exact h.bounds
  | claims hphase hv =>
    subst hphase
    rw [hnothing rfl]
    obtain ⟨rfl, hgenerator⟩ : asked = post.demand r iterations ∧
      generator = (post.replay r iterations).2 := h
    subst hgenerator
    exact ⟨(post.demand_succ r iterations).symm, List.prefix_refl _, rfl⟩
  | completes hphase =>
    subst hphase
    rw [hnothing rfl]
    obtain ⟨hasked, -, hgenerator⟩ := h
    rw [asking_nil, List.append_nil] at hasked
    exact ⟨hasked, hgenerator⟩
  -- What is asked for was planned; the plan of the rest is what remains.
  | pauses d moves hphase =>
    subst hphase
    obtain ⟨hasked, hbegun, hgenerator⟩ := h
    refine ⟨?_, hbegun.trans (List.prefix_append _ _), hgenerator⟩
    rw [List.append_assoc, asks?_pause rfl]
    exact hasked
  | sends request moves hphase =>
    subst hphase
    obtain ⟨hasked, hbegun, hgenerator⟩ := h
    refine ⟨?_, hbegun.trans (List.prefix_append _ _), hgenerator⟩
    rw [List.append_assoc]
    exact hasked
  | rests hover =>
    cases phase with
    | ended | crashed =>
      rw [hnothing rfl]
      exact h
    | _ => cases hover

/-- A reply asks for nothing. -/
theorem Follows.receive (h : u.Follows post r asked) (reply : Reply) :
    (u.receive reply).Follows post r asked := by
  obtain ⟨index, generator, iterations, phase⟩ := u
  cases phase with
  | waiting request sentAt moves =>
    cases reply with
    | status code => exact h
    | failed => exact h
    | cancelled => exact h.bounds
  | _ => exact h

end User

namespace Life

variable (post : Post) (w : Waiting)

/-- A user that was just started has asked for nothing. -/
theorem follows_begin (index : Nat) (r : Random.Generator) :
    (begin index r).user.Follows post r (begin index r).asked :=
  ⟨rfl, rfl⟩

/-- Whatever happens to it, a user asks for what comes next. -/
theorem follows_next {r : Random.Generator} {l : Life} (h : l.user.Follows post r l.asked)
    (happening : User.Happening) :
    (l.next post w happening).user.Follows post r (l.next post w happening).asked := by
  cases happening with
  | step v => exact h.acts (l.user.acts post w v)
  | reply reply => exact h.receive reply
  | crash =>
    have hnext : l.next post w .crash =
        if l.user.isOver then l else { l with user := l.user.crash } :=
      rfl
    rw [hnext]
    split
    · exact h
    · exact h.bounds

/-- Whatever happens, a virtual user follows the draws of its generator. -/
theorem follows_run (index : Nat) (r : Random.Generator) (happenings : List User.Happening) :
    ((begin index r).run post w happenings).user.Follows post r
      ((begin index r).run post w happenings).asked :=
  run_induction post w (p := fun l => l.user.Follows post r l.asked) (q := fun _ => True)
    (follows_begin post index r) (fun _ happening h _ => follows_next post w h happening) happenings
    fun _ _ => trivial

variable {post}

/-- Two lives that began with the same generator ask for the same, as far as they both go. -/
theorem asked_comparable {r : Random.Generator} {l l' : Life} (h : l.user.Follows post r l.asked)
    (h' : l'.user.Follows post r l'.asked) : l.asked <+: l'.asked ∨ l'.asked <+: l.asked := by
  -- Both are beginnings of what the greater number of iterations asks for.
  have hl : l.asked <+: post.demand r (max l.user.iterations l'.user.iterations + 1) :=
    h.bounds.2.trans (post.demand_mono r (by omega))
  have hl' : l'.asked <+: post.demand r (max l.user.iterations l'.user.iterations + 1) :=
    h'.bounds.2.trans (post.demand_mono r (by omega))
  exact List.prefix_or_prefix_of_prefix hl hl'

end Life

end LoadReplay
