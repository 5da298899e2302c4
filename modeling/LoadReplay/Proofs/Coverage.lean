import LoadReplay.Proofs.Replay
import Mathlib.Data.List.Forall2

/-!
# What an iteration covers

Iteration after iteration, a virtual user sends every request of its groups once, group by group
(`Post.IsRound`), and records one sample of each, which tells what came of it (`Post.Measures`).

`Life.Books` says at every moment which requests are settled, and which one is still open: sent, but
not recorded.  Main statement: `Life.covers_run`.
-/

namespace LoadReplay

/-! ## Rounds -/

/-- Whether the requests of a group may be sent in an order. -/
structure PreparedGroup.Orders (g : PreparedGroup) (order : List PreparedRequest) : Prop where
  perm : order.Perm g.requests
  declared : g.shuffle = false → order = g.requests

/-- The order that is drawn has each request of the group once. -/
theorem PreparedGroup.orders_order (g : PreparedGroup) (r : Random.Generator) :
    g.Orders (g.order r).1 := by
  refine ⟨g.order_perm r, fun hshuffle => ?_⟩
  rw [PreparedGroup.order, hshuffle]
  rfl

/-- Whether some requests are those of a whole iteration: group by group, each request once. -/
def Post.IsRound (p : Post) (requests : List PreparedRequest) : Prop :=
  ∃ orders : List (List PreparedRequest),
    List.Forall₂ PreparedGroup.Orders p.groups orders ∧ requests = orders.flatten

/-- Whether some requests are those of some whole iterations and the beginning of one more. -/
def Post.Replays (p : Post) (iterations : Nat) (requests : List PreparedRequest) : Prop :=
  ∃ (rounds : List (List PreparedRequest)) (current rest : List PreparedRequest),
    rounds.length = iterations ∧ (∀ round ∈ rounds, p.IsRound round) ∧
      p.IsRound (current ++ rest) ∧ requests = rounds.flatten ++ current

namespace Post

variable (p : Post)

/-- The requests of all groups are sent, one group after another, each in some order. -/
theorem orders_groupMoves (first : Bool) (groups : List PreparedGroup) (r : Random.Generator) :
    ∃ orders : List (List PreparedRequest),
      List.Forall₂ PreparedGroup.Orders groups orders ∧
        sent (p.groupMoves first groups r).1 = orders.flatten := by
  induction groups generalizing first r with
  | nil => exact ⟨[], .nil, rfl⟩
  | cons g rest ih =>
    obtain ⟨orders, horders, hsent⟩ := ih (first && (g.order r).1.isEmpty)
      (p.requestMoves first (g.order r).1 (g.order r).2).2
    refine ⟨(g.order r).1 :: orders, .cons (g.orders_order r) horders, ?_⟩
    rw [groupMoves, sent_append, sent_requestMoves, List.flatten_cons, ← hsent]

/-- The requests of an iteration are a round. -/
theorem isRound_iteration (r : Random.Generator) : p.IsRound (sent (p.iteration r).1) := by
  have hsent (d : Span) (moves : List Move) :
      sent (.pause d :: moves ++ [.pause p.scenario.iterationPause]) = sent moves := by
    rw [List.cons_append, sent_pause, sent_append, sent_pause, sent_nil, List.append_nil]
  obtain ⟨orders, horders, hflatten⟩ :=
    p.orders_groupMoves true p.groups (Random.spanUpTo p.scenario.startJitter r).2
  refine ⟨orders, horders, ?_⟩
  rw [← hflatten]
  exact hsent _ _

/-- Every iteration sends a round. -/
theorem rounds_replay (r : Random.Generator) (n : Nat) :
    ∃ rounds : List (List PreparedRequest), rounds.length = n ∧
      (∀ round ∈ rounds, p.IsRound round) ∧ sent (p.replay r n).1 = rounds.flatten := by
  induction n with
  | zero => exact ⟨[], rfl, fun _ h => (by cases h), rfl⟩
  | succ n ih =>
    obtain ⟨rounds, hlength, hrounds, hsent⟩ := ih
    refine ⟨rounds ++ [sent (p.iteration (p.replay r n).2).1], ?_, fun round hround => ?_, ?_⟩
    · rw [List.length_append, hlength, List.length_singleton]
    · rcases List.mem_append.1 hround with h | h
      · exact hrounds round h
      · rw [List.mem_singleton.1 h]
        exact p.isRound_iteration _
    · rw [replay_succ, sent_append, hsent, List.flatten_append, List.flatten_singleton]

end Post

variable {post : Post} {w : Waiting} {r : Random.Generator}

/-- A virtual user that follows its generator replays its groups. -/
theorem User.Follows.replays {u : User} {asked : List Move} (h : u.Follows post r asked) :
    post.Replays u.iterations (sent asked) := by
  obtain ⟨⟨current, hcurrent⟩, rest, hrest⟩ := h.bounds
  obtain ⟨rounds, hlength, hrounds, hsent⟩ := post.rounds_replay r u.iterations
  refine ⟨rounds, sent current, sent rest, hlength, hrounds, ?_, ?_⟩
  · -- What the user asks for in this iteration is all that the iteration asks for.
    rw [← hcurrent, post.demand_succ, List.append_assoc] at hrest
    rw [← sent_append, List.append_cancel_left hrest, sent_asking]
    exact post.isRound_iteration _
  · rw [← hcurrent, sent_append, Post.demand, sent_asking, hsent]

/-! ## Samples -/

/-- The status that came with a reply. -/
def Reply.status? : Reply → Option Nat
  | .status code => some code
  | .failed | .cancelled => none

/-- Whether a sample tells what came of a request. -/
structure Post.Measures (p : Post) (answer : PreparedRequest × Reply) (s : Sample) : Prop where
  tags : s.tags = p.scenario.sampleTags.merge answer.1.tags
  status : ∀ code, s.status = some code ↔ answer.2 = .status code
  success : s.outcome = .success ↔ ∃ code, answer.2 = .status code ∧ p.scenario.expects code

/-- Only an answer with a status has one. -/
theorem Reply.status?_eq_some {reply : Reply} {code : Nat} :
    reply.status? = some code ↔ reply = .status code := by
  cases reply <;> simp [status?]

/-- The sample of a request tells which one it was and what was answered. -/
theorem Post.measures_sample (p : Post) (request : PreparedRequest) (reply : Reply)
    (sentAt latency : Span) :
    p.Measures (request, reply) (p.sample request sentAt latency reply.status?) := by
  refine ⟨rfl, fun code => Reply.status?_eq_some, ?_⟩
  show (if reply.status?.any p.scenario.expects then Outcome.success else .failure) = .success ↔ _
  cases reply with
  | status code =>
    by_cases h : p.scenario.expects code <;> simp [Reply.status?, h]
  | failed | cancelled => simp [Reply.status?]

namespace Life

/-- What a virtual user has sent and not recorded. -/
inductive Opened where
  | nothing
  /-- The request is on its way. -/
  | sent (request : PreparedRequest)
  | answered (request : PreparedRequest) (reply : Reply)

/-- The request that is open. -/
def Opened.requests : Opened → List PreparedRequest
  | .nothing => []
  | .sent request | .answered request _ => [request]

/-- The reply that is open. -/
def Opened.replies : Opened → List (PreparedRequest × Reply)
  | .nothing | .sent _ => []
  | .answered request reply => [(request, reply)]

/-- What a virtual user can have open. -/
def Opened.Fits : Opened → User.Phase → Prop
  | opened, .waiting request _ _ => opened = .sent request
  | opened, .recording request _ status _ =>
    ∃ reply, opened = .answered request reply ∧ reply ≠ .cancelled ∧ reply.status? = status
  | opened, .ended true => opened = .nothing ∨ ∃ request, opened = .answered request .cancelled
  | _, .crashed => True
  | opened, _ => opened = .nothing

/-- What a virtual user has settled: the requests that it got a reply to and recorded.  There is one
sample of each of them and no other sample. -/
structure Books (post : Post) (l : Life) (settled : List (PreparedRequest × Reply))
    (opened : Opened) : Prop where
  requests : l.requests = settled.map Prod.fst ++ opened.requests
  replies : l.replies = settled ++ opened.replies
  samples : List.Forall₂ post.Measures settled l.samples
  measured : ∀ answer ∈ settled, answer.2 ≠ .cancelled
  fits : opened.Fits l.user.phase

variable {l : Life} {settled : List (PreparedRequest × Reply)} {opened : Opened}

/-- At first nothing was sent, and nothing was recorded. -/
theorem books_begin (post : Post) (index : Nat) (r : Random.Generator) :
    (begin index r).Books post [] .nothing :=
  ⟨rfl, rfl, .nil, fun _ h => (by cases h), rfl⟩

/-- A step that sends and records nothing leaves the books as they are. -/
theorem Books.stays (h : l.Books post settled opened) {u : User} {asked : List Move}
    (hasked : sent asked = []) (hfits : opened.Fits u.phase) :
    ({ l with user := u, asked := l.asked ++ asked, samples := l.samples ++ [] } : Life).Books
      post settled opened := by
  refine ⟨?_, h.replies, ?_, h.measured, hfits⟩
  · show sent (l.asked ++ asked) = _
    rw [sent_append, hasked, List.append_nil]
    exact h.requests
  · rw [List.append_nil]
    exact h.samples

/-- Whoever asks for a pause sends nothing. -/
theorem sent_asks?_pause {u : User} {d : Span} {moves : List Move}
    (h : u.phase = .moving (.pause d :: moves)) : sent u.asks?.toList = [] := by
  have hsent := congrArg sent (User.asks?_pause h)
  rw [sent_append, sent_asking, sent_asking, sent_pause] at hsent
  exact List.append_left_eq_self.1 hsent

/-- The books are kept in every step. -/
theorem Books.acts (h : l.Books post settled opened) {v : User.View} {u : User} {e : User.Effect}
    (ha : l.user.Acts post w v u e) :
    ∃ settled opened, ({ l with
      user := u
      asked := l.asked ++ l.user.asks?.toList
      samples := l.samples ++ e.sample?.toList } : Life).Books post settled opened := by
  obtain ⟨⟨index, generator, iterations, phase⟩, asked, replies, samples⟩ := l
  cases ha with
  | retires hphase | stays hphase | passes hphase | claims hphase | leaves hphase
  | completes hphase | turns _ _ hphase | wakes _ _ hphase | awaits _ _ _ hphase =>
    subst hphase
    exact ⟨settled, opened, h.stays rfl h.fits⟩
  | stops hphase | cuts _ _ hphase =>
    subst hphase
    exact ⟨settled, opened, h.stays rfl (.inl h.fits)⟩
  | pauses d moves hphase =>
    have hfits := h.fits
    rw [hphase] at hfits
    exact ⟨settled, opened, h.stays (sent_asks?_pause hphase) hfits⟩
  | waits p p' moves e hphase he =>
    have hsample : e.sample? = none := by
      rcases he with ⟨-, rfl⟩ | ⟨d, -, rfl⟩ <;> rfl
    subst hphase
    rw [hsample]
    exact ⟨settled, opened, h.stays rfl h.fits⟩
  | overflows p moves hphase =>
    subst hphase
    exact ⟨settled, opened, h.stays rfl trivial⟩
  | sends request moves hphase =>
    -- The request is open now.
    subst hphase
    obtain ⟨hrequests, hreplies, hsamples, hmeasured, rfl⟩ := h
    refine ⟨settled, .sent request, ?_, hreplies, ?_, hmeasured, rfl⟩
    · show sent (asked ++ [.send request]) = _
      rw [sent_append, show sent asked = _ from hrequests]
      exact congrArg (· ++ [request]) (List.append_nil _)
    · exact (List.append_nil samples).symm ▸ hsamples
  | records request sentAt status moves hphase =>
    -- The request is settled now.
    subst hphase
    obtain ⟨hrequests, hreplies, hsamples, hmeasured, reply, rfl, hreply, rfl⟩ := h
    refine ⟨settled ++ [(request, reply)], .nothing, ?_, ?_, ?_, fun answer ha => ?_, rfl⟩
    · show sent (asked ++ []) = _
      rw [List.append_nil, show sent asked = _ from hrequests, List.map_append]
      exact (List.append_nil _).symm
    · exact hreplies.trans (List.append_nil _).symm
    · exact List.rel_append hsamples (.cons (post.measures_sample request reply _ _) .nil)
    · rcases List.mem_append.1 ha with ha | ha
      · exact hmeasured answer ha
      · rw [List.mem_singleton.1 ha]
        exact hreply
  | rests hover =>
    have hasks : (⟨index, generator, iterations, phase⟩ : User).asks? = none := by
      cases phase with
      | ended | crashed => rfl
      | _ => cases hover
    rw [show (Life.user _).asks? = none from hasks]
    exact ⟨settled, opened, h.stays rfl h.fits⟩

/-- The books are kept when a reply comes. -/
theorem Books.reply (h : l.Books post settled opened) (reply : Reply) :
    ∃ settled opened, (l.next post w (.reply reply)).Books post settled opened := by
  obtain ⟨⟨index, generator, iterations, phase⟩, asked, replies, samples⟩ := l
  cases phase with
  | waiting request sentAt moves =>
    obtain ⟨hrequests, hreplies, hsamples, hmeasured, rfl⟩ := h
    have hreplies' : replies ++ [(request, reply)] =
        settled ++ (Opened.answered request reply).replies := by
      rw [show replies = _ from hreplies]
      exact congrArg (· ++ _) (List.append_nil settled)
    refine ⟨settled, .answered request reply, hrequests, hreplies', hsamples, hmeasured, ?_⟩
    cases reply with
    | status code => exact ⟨_, rfl, by simp, rfl⟩
    | failed => exact ⟨_, rfl, by simp, rfl⟩
    | cancelled => exact .inr ⟨request, rfl⟩
  | _ =>
    obtain ⟨hrequests, hreplies, hsamples, hmeasured, hfits⟩ := h
    exact ⟨settled, opened, hrequests, (List.append_nil replies).trans hreplies, hsamples,
      hmeasured, hfits⟩

/-- The books are kept whatever happens: a request is opened when it is sent and settled when it is
recorded. -/
theorem Books.next (h : l.Books post settled opened) (happening : User.Happening) :
    ∃ settled opened, (l.next post w happening).Books post settled opened := by
  cases happening with
  | step v => exact h.acts (l.user.acts post w v)
  | reply reply => exact h.reply reply
  | crash =>
    have hnext : l.next post w .crash =
        if l.user.isOver then l else { l with user := l.user.crash } :=
      rfl
    rw [hnext]
    split
    · exact ⟨settled, opened, h⟩
    · exact ⟨settled, opened, h.requests, h.replies, h.samples, h.measured, trivial⟩

/-- Whatever happens, the books are kept. -/
theorem books_run (post : Post) (w : Waiting) (index : Nat) (r : Random.Generator)
    (happenings : List User.Happening) :
    ∃ settled opened, ((begin index r).run post w happenings).Books post settled opened :=
  run_induction post w (p := fun l => ∃ settled opened, l.Books post settled opened)
    (q := fun _ => True) ⟨[], .nothing, books_begin post index r⟩
    (fun _ happening ⟨_, _, h⟩ _ => h.next happening) happenings fun _ _ => trivial

/-! ## What the books say -/

/-- What the books say of a virtual user that has ended: it got a reply to every request that it
sent, and its samples are those of the replies that no abort has cancelled. -/
theorem Books.ended (h : l.Books post settled opened) {interrupted : Bool}
    (hphase : l.user.phase = .ended interrupted) :
    l.replies.map Prod.fst = l.requests ∧
      List.Forall₂ post.Measures (l.replies.filter fun answer => answer.2 ≠ .cancelled)
        l.samples := by
  have hsettled : settled.filter (fun answer => answer.2 ≠ .cancelled) = settled :=
    List.filter_eq_self.2 fun answer ha => decide_eq_true (h.measured answer ha)
  have hfits := h.fits
  rw [hphase] at hfits
  have hopened : opened = .nothing ∨ ∃ request, opened = .answered request .cancelled := by
    cases interrupted with
    | true => exact hfits
    | false => exact .inl hfits
  rw [h.requests, h.replies, List.map_append, List.filter_append, hsettled]
  rcases hopened with rfl | ⟨request, rfl⟩
  · refine ⟨rfl, ?_⟩
    rw [Opened.replies, List.filter_nil, List.append_nil]
    exact h.samples
  · refine ⟨rfl, ?_⟩
    rw [Opened.replies, List.filter_singleton]
    exact (List.append_nil settled).symm ▸ h.samples

end Life

/-- Whether a virtual user has completed every iteration that it has begun. -/
def User.isBetween (u : User) : Bool :=
  match u.phase with
  | .retiring | .checking | .claiming | .ended false => true
  | _ => false

/-- Between two iterations a user has asked for exactly the moves of those that it has completed. -/
theorem User.Follows.asked_of_isBetween {u : User} {asked : List Move} (h : u.Follows post r asked)
    (hu : u.isBetween) : asked = post.demand r u.iterations := by
  obtain ⟨index, generator, iterations, phase⟩ := u
  cases phase with
  | retiring | checking | claiming => exact h.1
  | ended interrupted =>
    cases interrupted with
    | false => exact h
    | true => cases hu
  | _ => cases hu

/-- Between two iterations no request is on its way. -/
theorem Life.Opened.Fits.of_isBetween {opened : Life.Opened} {u : User} (h : opened.Fits u.phase)
    (hu : u.isBetween) : opened = .nothing := by
  obtain ⟨index, generator, iterations, phase⟩ := u
  cases phase with
  | retiring | checking | claiming => exact h
  | ended interrupted =>
    cases interrupted with
    | false => exact h
    | true => cases hu
  | _ => cases hu

namespace Life

variable {l : Life}

/-- What a virtual user has sent and recorded at some moment. -/
structure Covers (post : Post) (l : Life) : Prop where
  /-- Each completed iteration has sent a round, and the next one the beginning of a round. -/
  requests : post.Replays l.user.iterations l.requests
  /-- There is one sample of each request, but perhaps of the last one. -/
  books : ∃ settled opened, l.Books post settled opened
  complete : l.user.isBetween → l.samples.length = l.user.iterations * post.size
  /-- When it has ended, all requests have got their replies, and only those that were cancelled
  have no sample. -/
  ended : ∀ interrupted, l.user.phase = .ended interrupted →
    l.replies.map Prod.fst = l.requests ∧
      List.Forall₂ post.Measures (l.replies.filter fun answer => answer.2 ≠ .cancelled) l.samples

/-- Between two iterations there is a sample for each request of each completed one. -/
theorem Books.length_samples {settled : List (PreparedRequest × Reply)} {opened : Opened}
    (h : l.Books post settled opened) (hfollows : l.user.Follows post r l.asked)
    (hu : l.user.isBetween) : l.samples.length = l.user.iterations * post.size := by
  have hopened : opened = .nothing := h.fits.of_isBetween hu
  subst hopened
  calc l.samples.length = settled.length := h.samples.length_eq.symm
    _ = l.requests.length := by rw [h.requests, Opened.requests, List.append_nil, List.length_map]
    _ = l.user.iterations * post.size := by
        rw [Life.requests, hfollows.asked_of_isBetween hu, post.length_sent_demand]

/-- At every moment, whatever has happened, a virtual user covers its iterations. -/
theorem covers_run (post : Post) (w : Waiting) (index : Nat) (r : Random.Generator)
    (happenings : List User.Happening) : ((begin index r).run post w happenings).Covers post := by
  have hfollows := follows_run post w index r happenings
  obtain ⟨settled, opened, hbooks⟩ := books_run post w index r happenings
  exact
    { requests := hfollows.replays
      books := ⟨settled, opened, hbooks⟩
      complete := hbooks.length_samples hfollows
      ended := fun _ hphase => hbooks.ended hphase }

end Life

end LoadReplay
