import LoadReplay.Proofs.CalmLife
import LoadReplay.Proofs.Draws
import LoadReplay.Proofs.Validation
import LoadReplay.Run.Solo

/-!
# The timeline of a virtual user

On a clock that only it moves, a virtual user's requests take no time, so all that it does can be
read off its pauses.  An iteration makes a pause before its first request, one between any two
requests, also where a group ends, and one at its end (`Post.exists_send`).  A pause of no length is
not asked of the clock, and it does not move it either.

## Shape of the proof

Making some moves brings the clock to where the pauses among them lead, and adds a sample for each
request (`Solo.reaches_moves`).  By induction on the budget this holds of all iterations
(`Solo.reaches_end`).  Where a request stands among the moves then says when it is sent.

Main statement: `Solo.timeline`.
-/

namespace LoadReplay

/-! ## Pauses among moves -/

/-- The pause that a move makes, if it makes one. -/
def Move.pause? : Move → Option Span
  | .pause d => some d
  | .send _ => none

/-- The pauses that some moves make, in order. -/
def pausesOf (moves : List Move) : List Span := moves.filterMap Move.pause?

@[simp] theorem pausesOf_nil : pausesOf [] = [] := rfl

@[simp] theorem pausesOf_pause (d : Span) (moves : List Move) :
    pausesOf (.pause d :: moves) = d :: pausesOf moves := rfl

@[simp] theorem pausesOf_send (request : PreparedRequest) (moves : List Move) :
    pausesOf (.send request :: moves) = pausesOf moves := rfl

@[simp] theorem pausesOf_append (a b : List Move) : pausesOf (a ++ b) = pausesOf a ++ pausesOf b :=
  List.filterMap_append

/-- The sum of some lengths of time, in nanoseconds. -/
def Span.total (lengths : List Span) : Nat := (lengths.map (·.nanos)).sum

@[simp] theorem Span.total_nil : total [] = 0 := rfl

@[simp] theorem Span.total_cons (d : Span) (lengths : List Span) :
    total (d :: lengths) = d.nanos + total lengths := List.sum_cons

@[simp] theorem Span.total_append (a b : List Span) : total (a ++ b) = total a + total b := by
  rw [total, List.map_append, List.sum_append, total, total]

/-- Lengths that are zero add nothing. -/
theorem Span.total_filter (lengths : List Span) :
    total (lengths.filter fun d => !d.isZero) = total lengths := by
  induction lengths with
  | nil => rfl
  | cons d lengths ih =>
    rw [List.filter_cons]
    split
    · rw [total_cons, ih, total_cons]
    · rename_i hzero
      have hnone : d.nanos = 0 := by simpa [Span.isZero] using hzero
      rw [ih, total_cons, hnone, Nat.zero_add]

/-! ## Iterations -/

/-- Requests with a pause before each of them. -/
def spaced (stops : List (Span × PreparedRequest)) : List Move :=
  stops.flatMap fun stop => [.pause stop.1, .send stop.2]

theorem spaced_cons (stop : Span × PreparedRequest) (stops : List (Span × PreparedRequest)) :
    spaced (stop :: stops) = .pause stop.1 :: .send stop.2 :: spaced stops := rfl

/-- Requests with their pauses are made one list after the other. -/
theorem spaced_append (a b : List (Span × PreparedRequest)) :
    spaced (a ++ b) = spaced a ++ spaced b := List.flatMap_append

/-- The pauses among them are those in front of the requests. -/
theorem pausesOf_spaced (stops : List (Span × PreparedRequest)) :
    pausesOf (spaced stops) = stops.map (·.1) := by
  induction stops with
  | nil => rfl
  | cons stop stops ih => rw [spaced_cons, pausesOf_pause, pausesOf_send, ih, List.map_cons]

/-- The requests among them are sent in order. -/
theorem sent_spaced (stops : List (Span × PreparedRequest)) :
    sent (spaced stops) = stops.map (·.2) := by
  induction stops with
  | nil => rfl
  | cons stop stops ih => rw [spaced_cons, sent_pause, sent_send, ih, List.map_cons]

/-- Before the request at `j` there are `j` others and one pause more. -/
theorem exists_send_spaced (stops : List (Span × PreparedRequest)) {j : Nat}
    (h : j < stops.length) :
    ∃ before request after, spaced stops = before ++ .send request :: after ∧
      (sent before).length = j ∧ pausesOf before = (stops.map (·.1)).take (j + 1) := by
  induction stops generalizing j with
  | nil => cases h
  | cons stop stops ih =>
    cases j with
    | zero => exact ⟨[.pause stop.1], stop.2, spaced stops, rfl, rfl, rfl⟩
    | succ j =>
      obtain ⟨before, request, after, hsplit, hsent, hpauses⟩ := ih (Nat.lt_of_succ_lt_succ h)
      refine ⟨.pause stop.1 :: .send stop.2 :: before, request, after, ?_, ?_, ?_⟩
      · rw [spaced_cons, hsplit]
        rfl
      · rw [sent_pause, sent_send, List.length_cons, hsent]
      · rw [pausesOf_pause, pausesOf_send, hpauses, List.map_cons, List.take_succ_cons]

/-- The pauses that are drawn for an iteration. -/
structure Round where
  /-- The pause before the first request. -/
  jitter : Span
  /-- The pauses between the requests. -/
  pauses : List Span

/-- All pauses of an iteration. -/
def Round.lengths (s : Scenario) (x : Round) : List Span :=
  x.jitter :: x.pauses ++ [s.iterationPause]

/-- Whether the pauses of an iteration of some requests keep to the bounds of a scenario. -/
structure Round.KeepsTo (s : Scenario) (requests : Nat) (x : Round) : Prop where
  jitter : x.jitter ≤ s.startJitter
  length : x.pauses.length = requests - 1
  pauses : ∀ d ∈ x.pauses, s.minSleep ≤ d ∧ d ≤ s.maxSleep

namespace Post

variable (p : Post) (r : Random.Generator)

/-- The pauses that an iteration draws. -/
def round : Round :=
  let (jitter, r) := Random.spanUpTo p.scenario.startJitter r
  { jitter, pauses := pausesOf (p.groupMoves true p.groups r).1 }

/-- The pauses that some iterations draw, one after another. -/
def rounds (k : Nat) : List Round := (List.range k).map fun i => p.round (p.replay r i).2

/-- The pauses of an iteration are those that it draws, and the one at its end. -/
theorem pausesOf_iteration :
    pausesOf (p.iteration r).1 = (p.round r).lengths p.scenario := by
  show pausesOf (.pause _ :: (p.groupMoves true p.groups _).1 ++ [.pause _]) = _
  rw [List.cons_append, pausesOf_pause, pausesOf_append]
  rfl

/-- One iteration more draws from where the generator was left. -/
theorem rounds_succ (k : Nat) :
    p.rounds r (k + 1) = p.rounds r k ++ [p.round (p.replay r k).2] := by
  rw [rounds, List.range_succ, List.map_append, List.map_singleton, rounds]

/-- What was drawn for the first iterations does not depend on how many follow. -/
theorem take_rounds {i k : Nat} (h : i ≤ k) : (p.rounds r k).take i = p.rounds r i := by
  rw [rounds, ← List.map_take, List.take_range, Nat.min_eq_left h, rounds]

/-- The pauses of some iterations are those of each, one after another. -/
theorem pausesOf_replay (k : Nat) :
    pausesOf (p.replay r k).1 = (p.rounds r k).flatMap (·.lengths p.scenario) := by
  induction k with
  | zero => rfl
  | succ k ih =>
    rw [replay_succ, pausesOf_append, ih, pausesOf_iteration, rounds_succ, List.flatMap_append,
      List.flatMap_singleton]

/-- Further iterations leave the moves of the first ones as they are. -/
theorem exists_replay {i k : Nat} (h : i < k) :
    ∃ rest, (p.replay r k).1 = (p.replay r i).1 ++ (p.iteration (p.replay r i).2).1 ++ rest := by
  induction h with
  | refl => exact ⟨[], by rw [replay_succ, List.append_nil]⟩
  | step _ ih =>
    obtain ⟨rest, hrest⟩ := ih
    exact ⟨rest ++ _, by rw [replay_succ, hrest, List.append_assoc _ rest]⟩

/-- Whether a length is one that is drawn between two requests. -/
def Draws (d : Span) : Prop :=
  ∃ g, (Random.spanBetween p.scenario.minSleep p.scenario.maxSleep g).1 = d

variable {p r}

/-- The requests of a group are sent with a pause that is drawn before each of them. -/
theorem exists_spaced_requestMoves (requests : List PreparedRequest) (r : Random.Generator) :
    ∃ stops, (p.requestMoves false requests r).1 = spaced stops ∧
      ∀ stop ∈ stops, p.Draws stop.1 := by
  induction requests generalizing r with
  | nil => exact ⟨[], rfl, fun _ h => (by cases h)⟩
  | cons request requests ih =>
    obtain ⟨stops, hstops, hdraws⟩ :=
      ih (Random.spanBetween p.scenario.minSleep p.scenario.maxSleep r).2
    refine ⟨((Random.spanBetween p.scenario.minSleep p.scenario.maxSleep r).1, request) :: stops,
      ?_, List.forall_mem_cons.2 ⟨⟨r, rfl⟩, hdraws⟩⟩
    rw [spaced_cons, ← hstops]
    rfl

/-- So are those of several groups: where a group ends there is a pause like any other. -/
theorem exists_spaced_groupMoves (groups : List PreparedGroup) (r : Random.Generator) :
    ∃ stops, (p.groupMoves false groups r).1 = spaced stops ∧
      ∀ stop ∈ stops, p.Draws stop.1 := by
  induction groups generalizing r with
  | nil => exact ⟨[], rfl, fun _ h => (by cases h)⟩
  | cons g groups ih =>
    obtain ⟨stops, hstops, hdraws⟩ :=
      exists_spaced_requestMoves (p := p) (g.order r).1 (g.order r).2
    obtain ⟨more, hmore, hlater⟩ := ih (p.requestMoves false (g.order r).1 (g.order r).2).2
    refine ⟨stops ++ more, ?_, List.forall_mem_append.2 ⟨hdraws, hlater⟩⟩
    rw [spaced_append, ← hstops, ← hmore]
    rfl

/-- The groups of an iteration send nothing, or there is a pause before every request but the first
one. -/
theorem groupMoves_cases (groups : List PreparedGroup) (r : Random.Generator) :
    (p.groupMoves true groups r).1 = [] ∨ ∃ request stops,
      (p.groupMoves true groups r).1 = .send request :: spaced stops ∧
        ∀ stop ∈ stops, p.Draws stop.1 := by
  induction groups generalizing r with
  | nil => exact Or.inl rfl
  | cons g groups ih =>
    rcases horder : g.order r with ⟨order, r₁⟩
    have hmoves : (p.groupMoves true (g :: groups) r).1 = (p.requestMoves true order r₁).1 ++
        (p.groupMoves order.isEmpty groups (p.requestMoves true order r₁).2).1 := by
      simp only [groupMoves, horder, Bool.true_and]
    rw [hmoves]
    cases order with
    | nil => exact ih _
    | cons request requests =>
      obtain ⟨stops, hstops, hdraws⟩ := exists_spaced_requestMoves (p := p) requests r₁
      obtain ⟨more, hmore, hlater⟩ := exists_spaced_groupMoves (p := p) groups
        (p.requestMoves true (request :: requests) r₁).2
      refine Or.inr ⟨request, stops ++ more, ?_, List.forall_mem_append.2 ⟨hdraws, hlater⟩⟩
      rw [spaced_append, ← hstops, ← hmore]
      rfl

/-- An iteration is a pause, then its requests, with pauses between them, and one more pause. -/
theorem iteration_cases (p : Post) (r : Random.Generator) :
    (p.size = 0 ∧ (p.round r).pauses = []) ∨ ∃ request stops,
      (p.iteration r).1 =
        spaced (((p.round r).jitter, request) :: stops) ++ [.pause p.scenario.iterationPause] ∧
      p.size = stops.length + 1 ∧ (p.round r).pauses = stops.map (·.1) ∧
      ∀ stop ∈ stops, p.Draws stop.1 := by
  have hsize := p.length_sent_iteration r
  have hmoves : (p.iteration r).1 = .pause (p.round r).jitter ::
      (p.groupMoves true p.groups (Random.spanUpTo p.scenario.startJitter r).2).1 ++
        [.pause p.scenario.iterationPause] := rfl
  have hpauses : (p.round r).pauses =
      pausesOf (p.groupMoves true p.groups (Random.spanUpTo p.scenario.startJitter r).2).1 := rfl
  rcases groupMoves_cases (p := p) p.groups (Random.spanUpTo p.scenario.startJitter r).2 with
    hnone | ⟨request, stops, hstops, hdraws⟩
  · refine Or.inl ⟨?_, by rw [hpauses, hnone, pausesOf_nil]⟩
    rw [← hsize, hmoves, hnone]
    rfl
  · refine Or.inr ⟨request, stops, ?_, ?_, ?_, hdraws⟩
    · rw [hmoves, hstops, spaced_cons]
    · rw [← hsize, hmoves, hstops]
      simp [sent_spaced]
    · rw [hpauses, hstops, pausesOf_send, pausesOf_spaced]

/-- The pauses of an iteration keep to their bounds. -/
theorem keepsTo_round (hle : p.scenario.minSleep ≤ p.scenario.maxSleep)
    (hfits : 1 < p.size → p.scenario.minSleep.nanos < 2 ^ 64) (r : Random.Generator) :
    (p.round r).KeepsTo p.scenario p.size := by
  have hjitter : (p.round r).jitter ≤ p.scenario.startJitter :=
    Random.spanBetween_le (Nat.zero_le _) r
  rcases p.iteration_cases r with ⟨hsize, hpauses⟩ | ⟨request, stops, -, hsize, hpauses, hdraws⟩
  · refine ⟨hjitter, by rw [hpauses, hsize]; rfl, fun d hd => ?_⟩
    rw [hpauses] at hd
    cases hd
  · refine ⟨hjitter, by rw [hpauses, hsize, List.length_map, Nat.add_sub_cancel], fun d hd => ?_⟩
    rw [hpauses] at hd
    obtain ⟨stop, hstop, rfl⟩ := List.mem_map.1 hd
    obtain ⟨g, hg⟩ := hdraws stop hstop
    have hpos := List.length_pos_of_mem hstop
    rw [← hg]
    exact ⟨Random.le_spanBetween (hfits (by omega)) _ g, Random.spanBetween_le hle g⟩

/-- **Where the requests of an iteration stand.**  Before request `j` there are `j` others, and the
pauses before it are the first one of the iteration and those after the requests before it. -/
theorem exists_send (p : Post) (r : Random.Generator) {j : Nat} (h : j < p.size) :
    ∃ before request after, (p.iteration r).1 = before ++ .send request :: after ∧
      (sent before).length = j ∧
      pausesOf before = (p.round r).jitter :: (p.round r).pauses.take j := by
  rcases p.iteration_cases r with ⟨hsize, -⟩ | ⟨first, stops, hmoves, hsize, hpauses, -⟩
  · omega
  · obtain ⟨before, request, after, hsplit, hsent, hbefore⟩ :=
      exists_send_spaced (((p.round r).jitter, first) :: stops) (j := j)
        (by rw [List.length_cons]; omega)
    refine ⟨before, request, after ++ [.pause p.scenario.iterationPause], ?_, hsent, ?_⟩
    · rw [hmoves, hsplit, List.append_assoc, List.cons_append]
    · rw [hbefore, hpauses, List.map_cons, List.take_succ_cons]

/-- Where the requests of some iterations stand. -/
theorem exists_send_replay (p : Post) (r : Random.Generator) {i j k : Nat} (hi : i < k)
    (hj : j < p.size) :
    ∃ before request after, (p.replay r k).1 = before ++ .send request :: after ∧
      (sent before).length = i * p.size + j ∧
      pausesOf before = ((p.rounds r k).take i).flatMap (·.lengths p.scenario) ++
        (p.round (p.replay r i).2).jitter :: (p.round (p.replay r i).2).pauses.take j := by
  obtain ⟨rest, hrest⟩ := p.exists_replay r hi
  obtain ⟨before, request, after, hsplit, hsent, hpauses⟩ := p.exists_send (p.replay r i).2 hj
  refine ⟨(p.replay r i).1 ++ before, request, after ++ rest, ?_, ?_, ?_⟩
  · rw [hrest, hsplit]
    simp only [List.append_assoc, List.cons_append]
  · rw [sent_append, List.length_append, length_sent_replay, hsent]
  · rw [pausesOf_append, pausesOf_replay, hpauses, take_rounds p r (Nat.le_of_lt hi)]

end Post

/-! ## Clocks -/

namespace ManualClock

/-- The clock after some pauses; those of no length are not asked for. -/
def sleepAll (c : ManualClock) (lengths : List Span) : ManualClock :=
  lengths.foldl (fun c d => if d.isZero then c else c.sleep d) c

variable {c : ManualClock}

/-- Pauses are made one after another. -/
theorem sleepAll_append (a b : List Span) : c.sleepAll (a ++ b) = (c.sleepAll a).sleepAll b :=
  List.foldl_append

/-- The clock has written down the pauses that have a length. -/
theorem sleeps_sleepAll (lengths : List Span) :
    (c.sleepAll lengths).sleeps = c.sleeps ++ lengths.filter fun d => !d.isZero := by
  induction lengths generalizing c with
  | nil => exact (List.append_nil _).symm
  | cons d lengths ih =>
    show (sleepAll (if d.isZero then c else c.sleep d) lengths).sleeps = _
    rw [ih, List.filter_cons]
    cases d.isZero with
    | true => rfl
    | false =>
      show (d :: c.slept).reverse ++ _ = c.slept.reverse ++ _
      rw [List.reverse_cons, List.append_assoc]
      rfl

/-- As long as the clock has not been full, a pause moves it by its length. -/
theorem nanos_sleep {d : Span} (h : c.now.nanos + d.nanos < 2 ^ 64) :
    (c.sleep d).now.nanos = c.now.nanos + d.nanos := by
  have hcounted : (counted d).toNat = d.nanos := by
    have hmin : min d.nanos (Nat.pow 2 64 - 1) = d.nanos :=
      Nat.min_eq_left (Nat.le_sub_one_of_lt (Nat.lt_of_le_of_lt (Nat.le_add_left _ _) h))
    rw [counted, hmin]
    exact UInt64.toNat_ofNat_of_lt' (Nat.lt_of_le_of_lt (Nat.le_add_left _ _) h)
  show (c.ticks + counted d).toNat = _
  rw [UInt64.toNat_add, hcounted]
  exact Nat.mod_eq_of_lt h

/-- As long as it does not overflow, the clock shows the sum of the pauses. -/
theorem nanos_sleepAll {lengths : List Span} (h : c.now.nanos + Span.total lengths < 2 ^ 64) :
    (c.sleepAll lengths).now.nanos = c.now.nanos + Span.total lengths := by
  induction lengths generalizing c with
  | nil => rfl
  | cons d lengths ih =>
    rw [Span.total_cons] at h ⊢
    show (sleepAll (if d.isZero then c else c.sleep d) lengths).now.nanos = _
    split
    · rename_i hzero
      have hnone : d.nanos = 0 := eq_of_beq hzero
      rw [ih (by omega), hnone, Nat.zero_add]
    · have hsleep := nanos_sleep (c := c) (d := d) (by omega)
      rw [ih (by omega), hsleep, Nat.add_assoc]

end ManualClock

/-! ## Runs -/

/-- The samples of some moves that are made when `n` requests have been answered. -/
def Post.recorded (post : Post) (answers : Nat → Option Nat) (c : ManualClock) (n : Nat) :
    List Move → List Sample
  | [] => []
  | .pause d :: moves => post.recorded answers (c.sleepAll [d]) n moves
  | .send request :: moves =>
    post.sample request c.now .zero (answers n) :: post.recorded answers c (n + 1) moves

namespace Solo

variable {post : Post} {answers : Nat → Option Nat} {v v' v'' : Solo}

section Recorded

variable (post answers)

/-- What is recorded of moves one after another is recorded from where the first ones led. -/
theorem recorded_append (a b : List Move) (c : ManualClock) (n : Nat) :
    post.recorded answers c n (a ++ b) = post.recorded answers c n a ++
      post.recorded answers (c.sleepAll (pausesOf a)) (n + (sent a).length) b := by
  induction a generalizing c n with
  | nil => rfl
  | cons move a ih =>
    cases move with
    | pause d =>
      rw [sent_pause, pausesOf_pause]
      exact ih _ _
    | send request =>
      rw [sent_send, pausesOf_send, List.length_cons, Nat.add_comm (sent a).length, ← Nat.add_assoc]
      exact congrArg (_ :: ·) (ih _ _)

/-- There is a sample for each request. -/
theorem length_recorded (moves : List Move) (c : ManualClock) (n : Nat) :
    (post.recorded answers c n moves).length = (sent moves).length := by
  induction moves generalizing c n with
  | nil => rfl
  | cons move moves ih =>
    cases move with
    | pause d => exact ih _ _
    | send request => exact congrArg (· + 1) (ih _ _)

/-- The sample of a request that stands among some moves. -/
theorem getElem?_recorded (a b : List Move) (request : PreparedRequest) (c : ManualClock) :
    (post.recorded answers c 0 (a ++ .send request :: b))[(sent a).length]? =
      some (post.sample request (c.sleepAll (pausesOf a)).now .zero (answers (sent a).length)) := by
  have hlength := length_recorded post answers a c 0
  rw [recorded_append, List.getElem?_append_right (Nat.le_of_eq hlength), hlength, Nat.sub_self,
    Nat.zero_add]
  rfl

end Recorded

/-- Whether a run gets from one state to another. -/
def Reaches (post : Post) (answers : Nat → Option Nat) (v v' : Solo) : Prop :=
  ∃ n, v.run post answers n = v'

/-- Steps in a row are steps one after another. -/
theorem run_add (n m : Nat) (v : Solo) :
    v.run post answers (n + m) = (v.run post answers n).run post answers m := by
  induction n generalizing v with
  | zero => rw [Nat.zero_add, run]
  | succ n ih => rw [Nat.succ_add, run, run, ih]

/-- What leads on from where something led to leads there from the beginning. -/
theorem Reaches.trans (h : Reaches post answers v v') (h' : Reaches post answers v' v'') :
    Reaches post answers v v'' := by
  obtain ⟨n, rfl⟩ := h
  obtain ⟨m, rfl⟩ := h'
  exact ⟨n + m, run_add n m v⟩

section Moves

variable (index iterations : Nat) (generator : Random.Generator) (c : ManualClock) (b : Budget)
  (samples : List Sample)

/-- A pause is made in some steps, and its length is what the clock moves by. -/
theorem reaches_pause (d : Span) (moves : List Move) : Reaches post answers
    ⟨⟨index, generator, iterations, .moving (.pause d :: moves)⟩, c, b, samples⟩
    ⟨⟨index, generator, iterations, .moving moves⟩, c.sleepAll [d], b, samples⟩ := by
  by_cases hzero : d.isZero
  · refine ⟨2, ?_⟩
    simp [run, next, User.step, Pause.startAny, hzero, Pause.step, User.pauseNext, view, apply,
      ManualClock.sleepAll]
  · refine ⟨3, ?_⟩
    simp [run, next, User.step, Pause.startAny, Pause.start, hzero, Pause.step, User.pauseNext,
      view, apply, ManualClock.sleepAll]

/-- A request is answered at once, and its sample is recorded at the moment it was sent. -/
theorem reaches_send (request : PreparedRequest) (moves : List Move) : Reaches post answers
    ⟨⟨index, generator, iterations, .moving (.send request :: moves)⟩, c, b, samples⟩
    ⟨⟨index, generator, iterations, .moving moves⟩, c, b,
      samples ++ [post.sample request c.now .zero (answers samples.length)]⟩ := by
  have hlatency : c.now - c.now = Span.zero := Span.ext_nanos (Nat.sub_self _)
  refine ⟨4, ?_⟩
  cases hanswer : answers samples.length <;>
    simp [run, next, User.step, User.receive, view, apply, reply, hanswer, hlatency]

/-- **Making some moves** brings the clock to where their pauses lead and adds the samples of their
requests. -/
theorem reaches_moves (moves : List Move) : Reaches post answers
    ⟨⟨index, generator, iterations, .moving moves⟩, c, b, samples⟩
    ⟨⟨index, generator, iterations, .moving []⟩, c.sleepAll (pausesOf moves), b,
      samples ++ post.recorded answers c samples.length moves⟩ := by
  induction moves generalizing c samples with
  | nil => exact ⟨0, by rw [Post.recorded, List.append_nil]; rfl⟩
  | cons move moves ih =>
    cases move with
    | pause d => exact (reaches_pause index iterations generator c b samples d moves).trans (ih _ _)
    | send request =>
      have hlater := ih c (samples ++ [post.sample request c.now .zero (answers samples.length)])
      rw [List.append_assoc, List.length_append] at hlater
      exact (reaches_send index iterations generator c b samples request moves).trans hlater

end Moves

/-- Where a virtual user is between two iterations. -/
def between (post : Post) (answers : Nat → Option Nat) (index : Nat) (r : Random.Generator)
    (b : Budget) (phase : User.Phase) (i : Nat) : Solo :=
  { user := { index, generator := (post.replay r i).2, iterations := i, phase }
    clock := ManualClock.start.sleepAll (pausesOf (post.replay r i).1)
    budget := b
    samples := post.recorded answers .start 0 (post.replay r i).1 }

/-- A granted iteration is carried out. -/
theorem reaches_iteration {index i : Nat} {r : Random.Generator} {b b' : Budget}
    (hb : b.claim? = some b') :
    Reaches post answers (between post answers index r b .retiring i)
      (between post answers index r b' .retiring (i + 1)) := by
  have hclaim : Reaches post answers (between post answers index r b .retiring i)
      ⟨⟨index, (post.iteration (post.replay r i).2).2, i,
        .moving (post.iteration (post.replay r i).2).1⟩,
        ManualClock.start.sleepAll (pausesOf (post.replay r i).1), b',
        post.recorded answers .start 0 (post.replay r i).1⟩ := by
    refine ⟨3, ?_⟩
    simp [between, run, next, User.step, view, apply, hb]
  refine (hclaim.trans (reaches_moves _ _ _ _ _ _ _)).trans ⟨1, ?_⟩
  rw [between, Post.replay_succ, pausesOf_append, ManualClock.sleepAll_append, recorded_append,
    length_recorded, Nat.zero_add]
  rfl

/-- All iterations that are left are carried out. -/
theorem reaches_end (post : Post) (answers : Nat → Option Nat) (index : Nat)
    (r : Random.Generator) (i : Nat) (b : Budget) :
    ∃ b', Reaches post answers (between post answers index r b .retiring i)
      (between post answers index r b' (.ended false) (i + b.remaining)) := by
  generalize hm : b.remaining = m
  induction m generalizing i b with
  | zero =>
    have hclaim : b.claim? = none := if_pos hm
    exact ⟨b, 3, by simp [between, run, next, User.step, view, apply, hclaim]⟩
  | succ m ih =>
    obtain ⟨b₁, hclaim, hremaining⟩ : ∃ b₁, b.claim? = some b₁ ∧ b₁.remaining = m := by
      refine ⟨_, if_neg (by omega), ?_⟩
      show b.remaining - 1 = m
      omega
    obtain ⟨b', hend⟩ := ih (i + 1) b₁ hremaining
    refine ⟨b', (reaches_iteration hclaim).trans ?_⟩
    rwa [Nat.add_right_comm, Nat.add_assoc] at hend

/-- A user that has ended makes no more steps. -/
theorem run_ended (h : v.user.phase = .ended false) (n : Nat) : v.run post answers n = v := by
  obtain ⟨⟨index, generator, iterations, phase⟩, clock, budget, samples⟩ := v
  obtain rfl : phase = .ended false := h
  induction n with
  | zero => rfl
  | succ n ih => exact ih

/-- What the clock shows after some of the moves that are made. -/
theorem nanos_before {before after moves : List Move} (hmoves : moves = before ++ after)
    (h : Span.total (pausesOf moves) < 2 ^ 64) :
    (ManualClock.start.sleepAll (pausesOf before)).now.nanos = Span.total (pausesOf before) := by
  have hzero : ManualClock.start.now.nanos = 0 := rfl
  rw [hmoves, pausesOf_append, Span.total_append] at h
  rw [ManualClock.nanos_sleepAll (by omega), hzero, Nat.zero_add]

/-- **The timeline of a virtual user.**  Let a virtual user have a budget of `k` iterations on a
clock that only it moves, and let its target answer without moving the clock and without aborting
the run.  If the scenario makes sense, and the pauses that are drawn and also the least ones that
there may be add up to less than `2 ^ 64` nanoseconds, then the user comes to its end after `k`
iterations, and

* the clock is asked for the pauses of all iterations, except those of no length: for each iteration
  one up to the jitter of the scenario, one less than there are requests between the bounds of its
  pacing, and its iteration pause;
* there is one sample for each request, in order; its time is the sum of all pauses before it, and
  its latency is zero;
* in the end the clock shows the sum of all sleeps. -/
theorem timeline (post : Post) (index : Nat) (r : Random.Generator) (k : Nat)
    (answers : Nat → Option Nat) (hvalid : post.scenario.validate = .ok ())
    (hleast : k * ((post.size - 1) * post.scenario.minSleep.nanos) < 2 ^ 64)
    (hdrawn : Span.total ((post.rounds r k).flatMap (·.lengths post.scenario)) < 2 ^ 64) :
    ∃ v n, (∀ m, (start index r k).run post answers (n + m) = v) ∧
      v.user.report? = some { iterations := k, interrupted := false } ∧
      ((post.rounds r k).length = k ∧ ∀ x ∈ post.rounds r k, x.KeepsTo post.scenario post.size) ∧
      v.clock.sleeps =
        ((post.rounds r k).flatMap (·.lengths post.scenario)).filter (fun d => !d.isZero) ∧
      v.samples.length = k * post.size ∧
      (∀ i x, (post.rounds r k)[i]? = some x → ∀ j < post.size, ∃ request sentAt,
        (sent (post.replay r k).1)[i * post.size + j]? = some request ∧
        v.samples[i * post.size + j]? =
          some (post.sample request sentAt .zero (answers (i * post.size + j))) ∧
        sentAt.nanos = Span.total (((post.rounds r k).take i).flatMap (·.lengths post.scenario) ++
          x.jitter :: x.pauses.take j)) ∧
      v.clock.now.nanos = Span.total v.clock.sleeps := by
  -- The whole run is known in closed form: the moves of `k` iterations, one after the other.
  obtain ⟨b, n, hend⟩ := reaches_end post answers index r 0 (.full k)
  have hall : 0 + (Budget.full k).remaining = k := Nat.zero_add k
  rw [hall] at hend
  rw [← post.pausesOf_replay r k] at hdrawn ⊢
  have hmoves := (List.append_nil (post.replay r k).1).symm
  have hsleeps := ManualClock.sleeps_sleepAll (c := .start) (pausesOf (post.replay r k).1)
  refine ⟨between post answers index r b (.ended false) k, n, fun m => ?_, rfl,
    ⟨?_, fun x hx => ?_⟩, hsleeps, ?_, fun i x hx j hj => ?_, ?_⟩
  · rw [run_add]
    exact (congrArg (run post answers m) hend).trans (run_ended rfl m)
  · rw [Post.rounds, List.length_map, List.length_range]
  · obtain ⟨i, hi, rfl⟩ := List.mem_map.1 hx
    obtain ⟨-, hle, -⟩ := Scenario.validate_eq_ok.1 hvalid
    refine Post.keepsTo_round hle (fun hsize => ?_) _
    have hk : 0 < k * (post.size - 1) :=
      Nat.mul_pos (Nat.zero_lt_of_lt (List.mem_range.1 hi)) (by omega)
    rw [← Nat.mul_assoc] at hleast
    exact Nat.lt_of_le_of_lt (Nat.le_mul_of_pos_left _ hk) hleast
  · exact (length_recorded post answers _ _ _).trans (post.length_sent_replay r k)
  · have hi : i < k := by
      have hlt := (List.getElem?_eq_some_iff.1 hx).1
      rwa [Post.rounds, List.length_map, List.length_range] at hlt
    obtain rfl : post.round (post.replay r i).2 = x := by
      rw [Post.rounds, List.getElem?_map, List.getElem?_range hi] at hx
      exact Option.some.inj hx
    -- Request `j` of round `i` splits the moves, and what stands before it says when it is sent.
    obtain ⟨before, request, after, hsplit, hsent, hpauses⟩ := post.exists_send_replay r hi hj
    refine ⟨request, (ManualClock.start.sleepAll (pausesOf before)).now, ?_, ?_, ?_⟩
    · rw [hsplit, sent_append, sent_send, ← hsent, List.getElem?_append_right (Nat.le_refl _),
        Nat.sub_self, List.getElem?_cons_zero]
    · show (post.recorded answers .start 0 (post.replay r k).1)[_]? = _
      rw [hsplit, ← hsent, getElem?_recorded]
    · rw [nanos_before hsplit hdrawn, hpauses]
  · show (ManualClock.start.sleepAll _).now.nanos = Span.total (ManualClock.start.sleepAll _).sleeps
    rw [nanos_before hmoves hdrawn, hsleeps]
    exact (Span.total_filter _).symm

/-- Three pages of two groups. -/
def tour : Post :=
  { scenario :=
      { Scenario.new "tour" (.fixedIterations 2 1) with
        minSleep := .millis 100, maxSleep := .millis 700, iterationPause := .millis 1000 }
    groups :=
      [{ label := "site", shuffle := false, requests := [Life.page "/a", Life.page "/b"] },
        { label := "shop", shuffle := false, requests := [Life.page "/c"] }] }

/-- Two iterations without a jitter, in which the second request fails. -/
theorem timeline_tour :
    let r := Random.Generator.ofUser 0 "tour" 0
    let lengths := (tour.rounds r 2).flatMap (·.lengths tour.scenario)
    tour.scenario.validate = .ok () ∧
      2 * ((tour.size - 1) * tour.scenario.minSleep.nanos) < 2 ^ 64 ∧ Span.total lengths < 2 ^ 64 ∧
      lengths.map (·.nanos) =
        [0, 335881169, 589597193, 1000000000, 0, 179965875, 519334867, 1000000000] ∧
      ∃ v : Solo, v.user.report? = some { iterations := 2, interrupted := false } ∧
        v.clock.sleeps = lengths.filter (fun d => !d.isZero) ∧
        v.samples.length = 6 ∧ v.clock.now.nanos = Span.total lengths := by
  intro r lengths
  have hvalid : tour.scenario.validate = .ok () := rfl
  have hleast : 2 * ((tour.size - 1) * tour.scenario.minSleep.nanos) < 2 ^ 64 := by decide
  have hdrawn : Span.total lengths < 2 ^ 64 := by decide +kernel
  obtain ⟨v, -, -, hreport, -, hsleeps, hsamples, -, hnow⟩ := timeline tour 0 r 2
    (fun n => if n = 1 then none else some 200) hvalid hleast hdrawn
  refine ⟨hvalid, hleast, hdrawn, by decide +kernel, v, hreport, hsleeps, hsamples, ?_⟩
  rw [hnow, hsleeps, Span.total_filter]

end Solo

end LoadReplay
