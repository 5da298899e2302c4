import LoadReplay.Proofs.Accounts
import LoadReplay.Proofs.Scene

/-!
# What the log says about virtual users

The log of a scene says which user has claimed an iteration and which one has recorded a sample.
At every moment of every run, whatever the executor, it agrees with where each of the users is
(`Scene.Kept`): no claim and no sample is lost or counted twice.
-/

namespace LoadReplay

/-! ## Claims and samples -/

namespace Event

/-- The user that claimed an iteration in a step. -/
def claimers : Event → List Nat
  | .controller _ _ => []
  | .user i _ effect => List.replicate effect.claimed i

/-- The user that recorded a sample in a step. -/
def recorders : Event → List Nat
  | .controller _ _ => []
  | .user i _ effect => List.replicate effect.recorded i

/-- The sample that was recorded in a step. -/
def sample? : Event → Option Sample
  | .user _ _ (.records sample) => some sample
  | _ => none

end Event

namespace Scene

/-- The users that claimed an iteration, once for each claim. -/
def claimers (s : Scene) : List Nat := s.log.flatMap Event.claimers

/-- The users that recorded a sample, once for each of them. -/
def recorders (s : Scene) : List Nat := s.log.flatMap Event.recorders

/-- The samples that were recorded, the first one first. -/
def samples (s : Scene) : List Sample := s.log.filterMap Event.sample?

/-- Whoever records a sample is written down with it. -/
theorem length_samples (s : Scene) : s.samples.length = s.recorders.length := by
  rw [samples, recorders]
  induction s.log with
  | nil => rfl
  | cons event rest ih =>
    rw [List.flatMap_cons, List.length_append, ← ih]
    match event with
    | .user _ _ (.records _) =>
      exact Nat.add_comm _ 1
    | .controller _ _ | .user _ _ .nothing | .user _ _ .claims | .user _ _ (.sleeps _)
    | .user _ _ (.sends _) =>
      exact (Nat.zero_add _).symm

variable (w : Waiting)

/-- Controllers claim no iterations, -/
theorem claimers_stepController (s : Scene) (now : Span) :
    (s.stepController w now).claimers = s.claimers := by
  rw [claimers, stepController, List.flatMap_append]
  exact List.append_nil _

/-- and record no samples. -/
theorem recorders_stepController (s : Scene) (now : Span) :
    (s.stepController w now).recorders = s.recorders := by
  rw [recorders, stepController, List.flatMap_append]
  exact List.append_nil _

/-- What a virtual user does in a step, and what comes of it. -/
def turn (s : Scene) (now : Span) (t : Thread) : User × User.Effect :=
  t.user.step s.controller.post w (s.view now t.retired)

/-- A user that claims an iteration is written down. -/
theorem claimers_stepUser (s : Scene) (i : Nat) (now : Span) (t : Thread) :
    (s.stepUser w i now t).claimers =
      s.claimers ++ List.replicate (s.turn w now t).2.claimed i := by
  have hlog : (s.stepUser w i now t).log = s.log ++ [.user i now (s.turn w now t).2] := rfl
  rw [claimers, hlog, List.flatMap_append, List.flatMap_singleton]
  rfl

/-- A user that records a sample is written down. -/
theorem recorders_stepUser (s : Scene) (i : Nat) (now : Span) (t : Thread) :
    (s.stepUser w i now t).recorders =
      s.recorders ++ List.replicate (s.turn w now t).2.recorded i := by
  have hlog : (s.stepUser w i now t).log = s.log ++ [.user i now (s.turn w now t).2] := rfl
  rw [recorders, hlog, List.flatMap_append, List.flatMap_singleton]
  rfl

@[simp] theorem crew_apply (s : Scene) (effect : User.Effect) : (s.apply effect).crew = s.crew := by
  cases effect <;> rfl

/-- A step of a user changes only that user in its crew. -/
theorem crew_stepUser (s : Scene) (i : Nat) (now : Span) (t : Thread) :
    (s.stepUser w i now t).crew = (s.modifyUser i fun _ => (s.turn w now t).1).crew :=
  crew_apply _ _

/-- Only the one user is different. -/
theorem thread_modifyUser {s : Scene} {i j : Nat} {f : User → User} {t' : Thread} :
    (s.modifyUser i f).crew.threads[j]? = some t' ↔
      ∃ t, s.crew.threads[j]? = some t ∧ t' = if i = j then { t with user := f t.user } else t := by
  show (s.crew.threads.modify i _)[j]? = _ ↔ _
  rw [List.getElem?_modify]
  cases s.crew.threads[j]? <;> simp [eq_comm]

/-- Changing a user starts nobody. -/
theorem length_modifyUser (s : Scene) (i : Nat) (f : User → User) :
    (s.modifyUser i f).crew.threads.length = s.crew.threads.length :=
  List.length_modify _ _ _

end Scene

/-! ## Newcomers -/

/-- The user that a controller is in the middle of starting. -/
def Crew.Task.newcomer? : Crew.Task → Option User
  | .addsActive u | .addsRunning u | .raisesPeak u _ | .addsSpawned u | .launches u => some u
  | _ => Option.none

/-- A user that is still being started after a step was being started before it, and no thread has
been launched. -/
theorem Crew.Works.newcomer {c c' : Crew} {o : Crew.Outcome} {u : User} (hw : c.Works c' o)
    (hu : c'.task.newcomer? = some u) : c.task.newcomer? = some u ∧ c'.threads = c.threads := by
  cases hw with
  | idle => exact ⟨hu, rfl⟩
  | addsActive _ ht | addsRunning _ ht | raisesPeak _ _ ht | addsSpawned _ ht =>
    rw [ht]
    exact ⟨hu, rfl⟩
  | _ => cases hu

namespace Controller

/-- The user that a controller is in the middle of starting has done nothing yet. -/
def Welcomes (c : Controller) : Prop :=
  ∀ u, c.crew.task.newcomer? = some u →
    u = .new c.crew.threads.length (c.generators c.crew.threads.length)

variable {w : Waiting} {now : Span} {c c' : Controller} {e : Effect}

/-- Nobody is being started right after a user was told to retire. -/
theorem newcomer_tell (c : Crew) (i : Nat) : (c.tell i).task.newcomer? = none := by
  rw [Crew.tell]
  cases c.isRetired i <;> rfl

/-- Each row of the table starts users that have done nothing, with the next number and the
generator that belongs to it. -/
theorem Acts.welcomes (hidle : c.crew.task = .none) (ha : c.Acts w now c' e) : c'.Welcomes := by
  have hidle' : c.crew.task.newcomer? = none := by rw [hidle]; rfl
  intro u hu
  cases ha with
  | recruits | spawns => exact (Option.some.inj hu).symm
  | retires =>
    replace hu : c.crew.retireNewest.task.newcomer? = some u := hu
    rcases c.crew.retireNewest_cases with hr | ⟨front, i, -, hr⟩ <;> rw [hr] at hu
    · cases hidle'.symm.trans hu
    · rw [newcomer_tell] at hu
      cases hu
  | tells i =>
    replace hu : (c.crew.tell i).task.newcomer? = some u := hu
    rw [newcomer_tell] at hu
    cases hu
  | finishesReaping | aims | looks => cases hu
  | joins _ _ _ _ _ _ hj =>
    obtain ⟨_, _, rfl⟩ := Option.map_eq_some_iff.1 hj
    cases hidle'.symm.trans hu
  | joinedAll last => cases last <;> cases hidle'.symm.trans hu
  | breaks _ _ last => cases last <;> cases hidle'.symm.trans hu
  | _ => cases hidle'.symm.trans hu

/-- This is so in all steps of a controller. -/
theorem Welcomes.steps (h : c.Welcomes) (hst : c.Steps w now c' e) : c'.Welcomes := by
  cases hst with
  | acts hidle ha => exact ha.welcomes hidle
  | works _ hw | started _ hw | joined _ _ hw | broken _ _ _ hw | refused _ hw =>
    intro u hu
    obtain ⟨hu, hthreads⟩ := hw.newcomer hu
    show u = .new _ (c.generators _)
    rw [hthreads]
    exact h u hu

/-- What happens to the crew and the budget alone, and starts no user. -/
theorem Welcomes.of_crew {crew : Crew} {budget : Option Budget} (h : c.Welcomes)
    (htask : crew.task = c.crew.task) (hlen : crew.threads.length = c.crew.threads.length) :
    ({ c with crew, budget } : Controller).Welcomes := by
  intro u hu
  show u = .new crew.threads.length (c.generators crew.threads.length)
  rw [hlen]
  exact h u (by rw [← htask]; exact hu)

end Controller

/-! ## Books that are kept -/

namespace Scene

/-- Whether the log says about the user with an index what it has claimed and recorded. -/
def Agrees (s : Scene) (i : Nat) (u : User) : Prop :=
  u.Account s.controller.post.size (s.claimers.count i) (s.recorders.count i)

/-- What holds all the time of the log and the users. -/
structure Kept (s : Scene) : Prop where
  welcomes : s.controller.Welcomes
  claimers : ∀ i ∈ s.claimers, i < s.crew.threads.length
  recorders : ∀ i ∈ s.recorders, i < s.crew.threads.length
  agrees : ∀ (i : Nat) (t : Thread), s.crew.threads[i]? = some t → s.Agrees i t.user

variable {w : Waiting} {s s' : Scene}

/-- The log does not say anything about a user that has not been started yet. -/
theorem Kept.count_eq_zero (h : s.Kept) {i : Nat} (hi : s.crew.threads.length ≤ i) :
    s.claimers.count i = 0 ∧ s.recorders.count i = 0 :=
  ⟨List.count_eq_zero.2 fun hm => absurd (h.claimers i hm) (Nat.not_lt.2 hi),
    List.count_eq_zero.2 fun hm => absurd (h.recorders i hm) (Nat.not_lt.2 hi)⟩

/-- The books are kept by each step of the controller. -/
theorem Kept.stepController (h : s.Kept) (now : Span) : (s.stepController w now).Kept := by
  have hst := s.controller.steps w now s.aborted
  have hclaimers := s.claimers_stepController w now
  have hrecorders := s.recorders_stepController w now
  have hlen : s.crew.threads.length ≤ (s.stepController w now).crew.threads.length :=
    hst.change.length_le
  refine ⟨h.welcomes.steps hst, ?_, ?_, fun i t ht => ?_⟩
  · rw [hclaimers]
    exact fun i hi => Nat.lt_of_lt_of_le (h.claimers i hi) hlen
  · rw [hrecorders]
    exact fun i hi => Nat.lt_of_lt_of_le (h.recorders i hi) hlen
  · have hpost : (s.stepController w now).controller.post = s.controller.post := hst.post
    rcases hst.change.thread ht with ⟨t₀, ht₀, huser, -⟩ | ⟨u, htask, rfl, rfl⟩
    · rw [Agrees, huser, hpost, hclaimers, hrecorders]
      exact h.agrees i t₀ ht₀
    · -- The index of the new user is beyond all that the log says.
      have hnew : u = _ := h.welcomes u (by rw [htask]; rfl)
      obtain ⟨hc, hr⟩ := h.count_eq_zero (Nat.le_refl s.controller.crew.threads.length)
      rw [Agrees, hnew, hclaimers, hrecorders, hc, hr]
      exact User.account_new _ _ _

/-- What happens to the crew and the budget alone. -/
theorem Kept.of_crew (h : s.Kept) (hwelcomes : s'.controller.Welcomes)
    (hlen : s'.crew.threads.length = s.crew.threads.length) (hlog : s'.log = s.log)
    (hagrees : ∀ (i : Nat) (t : Thread), s'.crew.threads[i]? = some t → s'.Agrees i t.user) :
    s'.Kept := by
  refine ⟨hwelcomes, fun i hi => ?_, fun i hi => ?_, hagrees⟩
  · rw [hlen]
    rw [Scene.claimers, hlog] at hi
    exact h.claimers i hi
  · rw [hlen]
    rw [Scene.recorders, hlog] at hi
    exact h.recorders i hi

/-- They are kept when a thread cannot be started. -/
theorem Kept.refuse (h : s.Kept) : (s.modifyCrew (·.refuse)).Kept := by
  rcases s.crew.refuse_cases with hr | ⟨u, _, hr⟩ <;> rw [modifyCrew, hr]
  · exact h.of_crew h.welcomes rfl rfl h.agrees
  · exact h.of_crew (fun u hu => (by cases hu)) rfl rfl h.agrees

/-- They are kept when a thread goes on its way out. -/
theorem Kept.leave (h : s.Kept) (i : Nat) : (s.modifyCrew (·.leave i)).Kept := by
  have hlen := s.crew.length_leave i
  refine h.of_crew (h.welcomes.of_crew (s.crew.task_leave i).1 hlen) hlen rfl fun j t' ht' => ?_
  obtain ⟨t, ht, rfl⟩ := Crew.thread_leave.1 ht'
  have huser : (if i = j then t.leave else t).user = t.user := by
    split
    · exact t.user_leave
    · rfl
  rw [huser]
  exact h.agrees j t ht

/-- Who is about to be started does not depend on what users do. -/
theorem UsersMoved.welcomes (hu : s.UsersMoved s') (h : s.controller.Welcomes) :
    s'.controller.Welcomes := by
  rw [hu.controller]
  exact h.of_crew hu.task hu.length

/-- A user is changed in a way that its account allows. -/
theorem Kept.modifyUser (h : s.Kept) {i : Nat} {f : User → User}
    (hu : s.UsersMoved (s.modifyUser i f))
    (hf : ∀ t, s.crew.threads[i]? = some t → s.Agrees i (f t.user)) :
    (s.modifyUser i f).Kept := by
  refine h.of_crew (hu.welcomes h.welcomes) hu.length rfl fun j t' ht' => ?_
  obtain ⟨t, ht, rfl⟩ := thread_modifyUser.1 ht'
  split
  · rename_i hij
    subst hij
    exact hf t ht
  · exact h.agrees j t ht

/-- The books are kept when a user is answered. -/
theorem Kept.reply (h : s.Kept) (i : Nat) (r : Reply) : (s.modifyUser i (·.receive r)).Kept :=
  h.modifyUser (usersMoved_modifyUser s i fun _ _ hover => receive_of_isOver hover r)
    fun t ht => (h.agrees i t ht).receive r

/-- They are kept when a user is ended by an error. -/
theorem Kept.crash (h : s.Kept) {i : Nat} {t : Thread} (hi : s.user? i = some t) :
    (s.modifyUser i (·.crash)).Kept :=
  h.modifyUser (usersMoved_of_user? hi _) fun t' ht' => (h.agrees i t' ht').crash

/-- A step of a user does not abort the run. -/
@[simp] theorem aborted_stepUser (s : Scene) (i : Nat) (now : Span) (t : Thread) :
    (s.stepUser w i now t).aborted = s.aborted := by
  show ((s.modifyUser i _).apply (s.turn w now t).2).aborted = s.aborted
  cases (s.turn w now t).2 <;> rfl

/-- They are kept by each step of a user. -/
theorem Kept.stepUser (h : s.Kept) {i : Nat} {t : Thread} (hi : s.user? i = some t) (now : Span) :
    (s.stepUser w i now t).Kept := by
  obtain ⟨ht, -⟩ := user?_eq_some hi
  have hu := usersMoved_stepUser w hi now
  have hlt : i < s.crew.threads.length := (List.getElem?_eq_some_iff.1 ht).1
  have hpost : (s.stepUser w i now t).controller.post = s.controller.post := hu.post
  have hclaimers := s.claimers_stepUser w i now t
  have hrecorders := s.recorders_stepUser w i now t
  refine ⟨hu.welcomes h.welcomes, fun j hj => ?_, fun j hj => ?_, fun j t' ht' => ?_⟩
  · rw [hclaimers] at hj
    rw [hu.length]
    rcases List.mem_append.1 hj with hj | hj
    · exact h.claimers j hj
    · rwa [List.eq_of_mem_replicate hj]
  · rw [hrecorders] at hj
    rw [hu.length]
    rcases List.mem_append.1 hj with hj | hj
    · exact h.recorders j hj
    · rwa [List.eq_of_mem_replicate hj]
  · rw [crew_stepUser] at ht'
    obtain ⟨t₀, ht₀, rfl⟩ := thread_modifyUser.1 ht'
    have haccount := h.agrees j t₀ ht₀
    -- The step adds to the account of user `i` alone; the counts of all others are as before.
    by_cases hij : i = j
    · subst hij
      obtain rfl : t = t₀ := by
        rw [ht] at ht₀
        exact Option.some.inj ht₀
      rw [if_pos rfl, Agrees, hpost, hclaimers, hrecorders, List.count_append, List.count_append,
        List.count_replicate_self, List.count_replicate_self]
      exact haccount.step
    · have hcount (n : Nat) : (List.replicate n i).count j = 0 := by
        rw [List.count_replicate]
        simp [hij]
      rw [if_neg hij, Agrees, hpost, hclaimers, hrecorders, List.count_append, List.count_append,
        hcount, hcount]
      exact haccount

/-- Whatever happens, the books are kept. -/
theorem Kept.next (h : s.Kept) (choice : Choice) : (s.next w choice).Kept := by
  cases choice with
  | abort => exact h.of_crew h.welcomes rfl rfl h.agrees
  | controller now => exact h.stepController now
  | refuse => exact h.refuse
  | user i now =>
    rw [Scene.next]
    cases hi : s.user? i with
    | none => exact h
    | some t => exact h.stepUser hi now
  | reply i reply => exact h.reply i reply
  | crash i =>
    rw [Scene.next]
    cases hi : s.user? i with
    | none => exact h
    | some t => exact h.crash hi
  | leave i =>
    rw [Scene.next]
    cases s.user? i with
    | none => exact h.leave i
    | some t => exact h

/-- **In every run the log agrees with where the users are.** -/
theorem kept_run (w : Waiting) (gens : Nat → Random.Generator) (post : Post)
    (choices : List Choice) :
    ((Scene.start w gens post).run w choices).Kept := by
  have hstart : (Scene.start w gens post).Kept :=
    ⟨fun u hu => (by cases hu), fun i hi => (by cases hi), fun i hi => (by cases hi),
      fun i t ht => (by cases ht)⟩
  exact run_induction w hstart (fun _ choice h => h.next choice) choices

end Scene

end LoadReplay
