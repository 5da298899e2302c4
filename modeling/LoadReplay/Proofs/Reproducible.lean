import LoadReplay.Proofs.Lives
import LoadReplay.Proofs.Replay

/-!
# Reproducible traffic

What a virtual user asks for depends on nothing but the seed of the run, its scenario and its index,
as far as it goes: how far it goes is all that the replies, the clock, the other users, the order of
the steps and an abort can change (`Scene.traffic_reproducible`).

The moves of an iteration are drawn when it begins.  `Post.perform` draws each pause and each order
only when it is about to be used, between the moves, which may do anything and may also break off
the iteration.  It makes the same moves (`Post.perform_eq`): no draw depends on what a move has
brought about.
-/

namespace LoadReplay

/-! ## Drawing on the way -/

namespace Post

variable {m : Type → Type} [Monad m] (p : Post) (act : Move → m PUnit)

/-- Sends some requests, and draws each pause before it is made. -/
def performRequests : Bool → List PreparedRequest → Random.Generator → m Random.Generator
  | _, [], r => pure r
  | true, request :: rest, r => do
    act (.send request)
    performRequests false rest r
  | false, request :: rest, r => do
    let (d, r) := Random.spanBetween p.scenario.minSleep p.scenario.maxSleep r
    act (.pause d)
    act (.send request)
    performRequests false rest r

/-- Sends the requests of some groups, and draws the order of each group when it comes to it. -/
def performGroups : Bool → List PreparedGroup → Random.Generator → m Random.Generator
  | _, [], r => pure r
  | first, g :: rest, r => do
    let (order, r) := g.order r
    let r ← p.performRequests act first order r
    performGroups (first && order.isEmpty) rest r

/-- Carries out an iteration, and makes each draw when the move that needs it is about to be
made. -/
def perform (r : Random.Generator) : m Random.Generator := do
  let (jitter, r) := Random.spanUpTo p.scenario.startJitter r
  act (.pause jitter)
  let r ← p.performGroups act true p.groups r
  act (.pause p.scenario.iterationPause)
  return r

variable [LawfulMonad m]

/-- To draw and act at once on the requests of a group is to draw all moves and then to act. -/
theorem performRequests_eq (first : Bool) (requests : List PreparedRequest) (r : Random.Generator) :
    p.performRequests act first requests r = do
      (p.requestMoves first requests r).1.forM act
      return (p.requestMoves first requests r).2 := by
  induction requests generalizing first r with
  | nil => simp [performRequests, requestMoves]
  | cons request rest ih =>
    cases first with
    | true => simp [performRequests, requestMoves, ih]
    | false => simp [performRequests, requestMoves, ih]

/-- So it is with all groups. -/
theorem performGroups_eq (first : Bool) (groups : List PreparedGroup) (r : Random.Generator) :
    p.performGroups act first groups r = do
      (p.groupMoves first groups r).1.forM act
      return (p.groupMoves first groups r).2 := by
  induction groups generalizing first r with
  | nil => simp [performGroups, groupMoves]
  | cons g rest ih =>
    simp [performGroups, groupMoves, performRequests_eq, ih]

/-- Drawing on the way is the same as drawing all at once, whatever the moves do in between. -/
theorem perform_eq (r : Random.Generator) :
    p.perform act r = do
      (p.iteration r).1.forM act
      return (p.iteration r).2 := by
  simp [perform, iteration, performGroups_eq]

end Post

/-! ## Two runs -/

namespace Scene

variable {w : Waiting} {gens : Nat → Random.Generator} {post : Post} {s : Scene} {i : Nat}
  {l : Life}

/-- A user of a scene asks for what its generator makes it ask for. -/
theorem Shadows.follows (h : s.Shadows w gens post i l) :
    l.user.Follows post (gens i) l.asked := by
  obtain ⟨happenings, hlived⟩ := h.lived
  rw [hlived]
  exact Life.follows_run post w i _ happenings

/-- **The traffic of a virtual user is reproducible.**  Take two runs of a scenario with the same
seed, which may differ in everything that can happen: in the replies, the clock, the other users,
the order of the steps, the moment when users are told to retire and the moment of an abort.  Of
what a virtual user asks for, the requests that it sends together with the pauses that it asks the
clock for, one run has the beginning of what the other one has. -/
theorem traffic_reproducible (seed : UInt64) (post : Post) (i : Nat) (w₁ w₂ : Waiting)
    (choices₁ choices₂ : List Choice) :
    let gens := Random.Generator.seeded seed post.scenario.name
    let traffic₁ := (start w₁ gens post).traffic w₁ i choices₁
    let traffic₂ := (start w₂ gens post).traffic w₂ i choices₂
    sent traffic₁ = ((start w₁ gens post).run w₁ choices₁).sentBy i ∧
      (traffic₁ <+: traffic₂ ∨ traffic₂ <+: traffic₁) := by
  intro gens traffic₁ traffic₂
  -- In both runs the user has a life, and both lives begin with the same generator.
  obtain ⟨l₁, hl₁, hasked₁⟩ := exists_life w₁ gens post choices₁ i
  obtain ⟨l₂, hl₂, hasked₂⟩ := exists_life w₂ gens post choices₂ i
  refine ⟨?_, ?_⟩
  · rw [hl₁.requests, Life.requests, hasked₁]
  · have h := Life.asked_comparable hl₁.follows hl₂.follows
    rwa [hasked₁, hasked₂] at h

end Scene

end LoadReplay
