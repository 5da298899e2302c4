import LoadReplay.Proofs.Bookkeeping
import LoadReplay.Proofs.Life

/-!
# The lives in a scene

Seen from one virtual user, a run of a scene is a list of happenings: its own steps, with what it
saw of the run at each of them, and the replies to its requests.  So the user of a scene has a
`Life`, and this life begins with the generator that its index and its scenario give it
(`Scene.exists_life`).  What the log says about the user is what its life says (`Scene.Shadows`).
-/

namespace LoadReplay

/-! ## What is recorded about one user -/

/-- What a step did to the run, if a user with an index made it. -/
def Event.by (i : Nat) : Event → Option User.Effect
  | .controller _ _ => none
  | .user j _ effect => if j = i then some effect else none

namespace Scene

/-- What the steps of a virtual user did to the run, the first one first. -/
def effects (s : Scene) (i : Nat) : List User.Effect := s.log.filterMap (Event.by i)

/-- The samples that a virtual user has recorded. -/
def samplesBy (s : Scene) (i : Nat) : List Sample := (s.effects i).filterMap User.Effect.sample?

/-- The requests that a virtual user has sent. -/
def sentBy (s : Scene) (i : Nat) : List PreparedRequest :=
  (s.effects i).filterMap User.Effect.request?

/-- What a virtual user asks for when something happens. -/
def asks? (s : Scene) (i : Nat) : Choice → Option Move
  | .user j _ => if j = i then (s.user? i).bind fun t => t.user.asks? else none
  | _ => none

variable (w : Waiting)

/-- What a virtual user asks for in a run: the pauses that it asks the clock for, and the requests
that it sends. -/
def traffic (i : Nat) (s : Scene) : List Choice → List Move
  | [] => []
  | choice :: rest => (s.asks? i choice).toList ++ traffic i (s.next w choice) rest

end Scene

/-- A step sends a request exactly when it asks for that. -/
theorem User.request?_step (post : Post) (w : Waiting) (v : User.View) (u : User) :
    (u.step post w v).2.request?.toList = sent u.asks?.toList := by
  obtain ⟨index, generator, iterations, phase⟩ := u
  generalize hstep : User.step post w v ⟨index, generator, iterations, phase⟩ = next
  have ha := User.acts post w v ⟨index, generator, iterations, phase⟩
  rw [hstep] at ha
  obtain ⟨u', e⟩ := next
  -- A request is issued by one rule, and by that rule the next move was to send.
  cases ha with
  | retires h | stays h | stops h | passes h | claims h | leaves h | completes h =>
    subst h
    rfl
  | pauses d moves h =>
    subst h
    show [] = sent (if d.isZero then none else some (Move.pause d)).toList
    split
    · rfl
    · rfl
  | turns request moves h =>
    subst h
    rfl
  | waits p p' moves e h he =>
    subst h
    rcases he with ⟨-, he⟩ | ⟨d, -, he⟩
    · rw [he]
      rfl
    · rw [he]
      rfl
  | wakes p moves h | cuts p moves h | overflows p moves h =>
    subst h
    rfl
  | sends request moves h =>
    subst h
    rfl
  | records request sentAt status moves h =>
    subst h
    rfl
  | awaits request sentAt moves h =>
    subst h
    rfl
  | rests hover =>
    cases phase with
    | ended | crashed => rfl
    | _ => cases hover

/-! ## Controllers stay with their generators -/

namespace Controller

variable {w : Waiting} {now : Span} {c c' : Controller} {e : Effect}

/-- The generators of users do not change in any row of the table, -/
theorem Acts.generators (h : c.Acts w now c' e) : c'.generators = c.generators := by
  cases h with
  | joinedAll last => cases last <;> rfl
  | breaks _ _ last => cases last <;> rfl
  | _ => rfl

/-- nor in any step of a controller. -/
theorem Steps.generators (h : c.Steps w now c' e) : c'.generators = c.generators := by
  cases h with
  | acts _ ha => exact ha.generators
  | _ => rfl

end Controller

/-! ## Lives -/

namespace Scene

variable {w : Waiting} {gens : Nat → Random.Generator} {post : Post} {s s' : Scene} {i : Nat}
  {l : Life}

/-- The life of a virtual user before it is started. -/
def unborn (gens : Nat → Random.Generator) (i : Nat) : Life := .begin i (gens i)

/-- Whether a life is that of a virtual user of a scene. -/
structure Shadows (w : Waiting) (gens : Nat → Random.Generator) (post : Post) (s : Scene)
    (i : Nat) (l : Life) : Prop where
  sameGens : s.controller.generators = gens
  samePost : s.controller.post = post
  lived : ∃ happenings, l = (unborn gens i).run post w happenings
  user : ∀ t, s.crew.threads[i]? = some t → t.user = l.user
  begins : s.crew.threads.length ≤ i → l = unborn gens i
  samples : s.samplesBy i = l.samples
  requests : s.sentBy i = l.requests

/-- The life is that of the user as long as nothing happens to the user. -/
theorem Shadows.stays (h : s.Shadows w gens post i l)
    (hgens : s'.controller.generators = s.controller.generators)
    (hpost : s'.controller.post = s.controller.post)
    (huser : ∀ t', s'.crew.threads[i]? = some t' → t'.user = l.user)
    (hlength : s.crew.threads.length ≤ s'.crew.threads.length)
    (heffects : s'.effects i = s.effects i) : s'.Shadows w gens post i l where
  sameGens := hgens.trans h.sameGens
  samePost := hpost.trans h.samePost
  lived := h.lived
  user := huser
  begins := fun hi => h.begins (Nat.le_trans hlength hi)
  samples := by
    rw [samplesBy, heffects]
    exact h.samples
  requests := by
    rw [sentBy, heffects]
    exact h.requests

/-- The life goes on when something happens to the user. -/
theorem Shadows.goesOn (h : s.Shadows w gens post i l) {t : Thread}
    (ht : s.crew.threads[i]? = some t) (happening : User.Happening)
    (hgens : s'.controller.generators = s.controller.generators)
    (hpost : s'.controller.post = s.controller.post)
    (huser : ∀ t', s'.crew.threads[i]? = some t' → t'.user = (l.next post w happening).user)
    (hlength : s'.crew.threads.length = s.crew.threads.length)
    (hsamples : s'.samplesBy i = (l.next post w happening).samples)
    (hrequests : s'.sentBy i = (l.next post w happening).requests) :
    s'.Shadows w gens post i (l.next post w happening) where
  sameGens := hgens.trans h.sameGens
  samePost := hpost.trans h.samePost
  lived := by
    obtain ⟨happenings, hlived⟩ := h.lived
    refine ⟨happenings ++ [happening], ?_⟩
    rw [Life.run_append, ← hlived]
    rfl
  user := huser
  begins := fun hi => by
    have hlt : i < s.crew.threads.length := (List.getElem?_eq_some_iff.1 ht).1
    omega
  samples := hsamples
  requests := hrequests

/-! ### What each step does to a life -/

/-- At most one effect comes of one event. -/
private theorem filterMap_single {α β : Type} (f : α → Option β) (a : α) :
    [a].filterMap f = (f a).toList := by
  rw [List.filterMap_cons]
  cases f a <;> rfl

/-- What comes of a user is what came of it before, and what the last events say. -/
theorem effects_append {log : List Event} (hlog : s'.log = s.log ++ log) (i : Nat) :
    s'.effects i = s.effects i ++ log.filterMap (Event.by i) := by
  rw [effects, hlog, List.filterMap_append, effects]

/-- A life goes on alike when the run is aborted: it sees this at its next step. -/
theorem Shadows.abort (h : s.Shadows w gens post i l) :
    ({ s with aborted := true } : Scene).Shadows w gens post i l :=
  h.stays rfl rfl h.user (Nat.le_refl _) rfl

/-- A new user has done nothing yet. -/
theorem Shadows.stepController (h : s.Shadows w gens post i l) (hwelcomes : s.controller.Welcomes)
    (now : Span) : (s.stepController w now).Shadows w gens post i l := by
  have hst := s.controller.steps w now s.aborted
  refine h.stays hst.generators hst.post (fun t' ht' => ?_) hst.change.length_le ?_
  · rcases hst.change.thread ht' with ⟨t, ht, huser, -⟩ | ⟨u, htask, hi, rfl⟩
    · rw [huser]
      exact h.user t ht
    · -- The user has just been started, with the generator of its index.
      have hbegins : l = unborn gens i := h.begins (Nat.le_of_eq hi.symm)
      have hnew : u = _ := hwelcomes u (by rw [htask]; rfl)
      rw [h.sameGens, ← hi] at hnew
      rw [hbegins]
      exact hnew
  · rw [effects_append (s := s) rfl]
    exact List.append_nil _

/-- A thread that cannot be started is none of its concern, -/
theorem Shadows.refuse (h : s.Shadows w gens post i l) :
    (s.modifyCrew (·.refuse)).Shadows w gens post i l := by
  rcases s.crew.refuse_cases with hr | ⟨u, -, hr⟩ <;> rw [modifyCrew, hr]
  · exact h.stays rfl rfl h.user (Nat.le_refl _) rfl
  · exact h.stays rfl rfl h.user (Nat.le_refl _) rfl

/-- and neither is a thread on its way out. -/
theorem Shadows.leave (h : s.Shadows w gens post i l) (j : Nat) :
    (s.modifyCrew (·.leave j)).Shadows w gens post i l := by
  refine h.stays rfl rfl (fun t' ht' => ?_) (Nat.le_of_eq (s.crew.length_leave j).symm) rfl
  obtain ⟨t, ht, rfl⟩ := Crew.thread_leave.1 ht'
  split
  · rw [t.user_leave]
    exact h.user t ht
  · exact h.user t ht

/-- Another user is changed. -/
theorem Shadows.modifyOther (h : s.Shadows w gens post i l) {j : Nat} (hj : j ≠ i)
    (f : User → User) : (s.modifyUser j f).Shadows w gens post i l := by
  refine h.stays rfl rfl (fun t' ht' => ?_) (Nat.le_of_eq (s.length_modifyUser j f).symm) rfl
  obtain ⟨t, ht, rfl⟩ := thread_modifyUser.1 ht'
  rw [if_neg hj]
  exact h.user t ht

/-- The user is changed, but makes no step. -/
theorem Shadows.modify (h : s.Shadows w gens post i l) {t : Thread}
    (ht : s.crew.threads[i]? = some t) {f : User → User} (happening : User.Happening)
    (hf : f l.user = (l.next post w happening).user)
    (hsamples : l.samples = (l.next post w happening).samples)
    (hrequests : l.requests = (l.next post w happening).requests) :
    (s.modifyUser i f).Shadows w gens post i (l.next post w happening) := by
  refine h.goesOn ht happening rfl rfl (fun t' ht' => ?_) (s.length_modifyUser i f)
    (h.samples.trans hsamples) (h.requests.trans hrequests)
  obtain ⟨t₀, ht₀, rfl⟩ := thread_modifyUser.1 ht'
  rw [if_pos rfl, ← hf, ← h.user t₀ ht₀]

/-- An answer happens to the life of whom it is for. -/
theorem Shadows.reply (h : s.Shadows w gens post i l) (j : Nat) (r : Reply) :
    ∃ l', (s.modifyUser j (·.receive r)).Shadows w gens post i l' ∧ l'.asked = l.asked := by
  by_cases hj : j = i
  · subst hj
    cases ht : s.crew.threads[j]? with
    | none =>
      have hsame : (s.modifyUser j (·.receive r)).crew.threads = s.crew.threads :=
        List.modify_eq_self (List.getElem?_eq_none_iff.1 ht)
      refine ⟨l, h.stays rfl rfl (fun t' ht' => ?_) (Nat.le_of_eq (by rw [hsame])) rfl, rfl⟩
      rw [hsame, ht] at ht'
      cases ht'
    | some t => exact ⟨_, h.modify ht (.reply r) rfl rfl rfl, rfl⟩
  · exact ⟨l, h.modifyOther hj _, rfl⟩

/-- So does an error of the program. -/
theorem Shadows.crash (h : s.Shadows w gens post i l) {j : Nat} {t : Thread}
    (hj : s.user? j = some t) :
    ∃ l', (s.modifyUser j (·.crash)).Shadows w gens post i l' ∧ l'.asked = l.asked := by
  by_cases hji : j = i
  · subst hji
    obtain ⟨ht, hover⟩ := user?_eq_some hj
    have hnext : l.next post w .crash = { l with user := l.user.crash } := by
      rw [h.user t ht] at hover
      show (if l.user.isOver then l else _) = _
      rw [if_neg (by rw [hover]; decide)]
    refine ⟨l.next post w .crash, h.modify ht .crash ?_ ?_ ?_, ?_⟩ <;> rw [hnext]
    rfl
  · exact ⟨l, h.modifyOther hji _, rfl⟩

/-- A step of a user has effects of that user only. -/
theorem effects_stepUser (s : Scene) (j i : Nat) (now : Span) (t : Thread) :
    (s.stepUser w j now t).effects i =
      s.effects i ++ if j = i then [(s.turn w now t).2] else [] := by
  have hlog : (s.stepUser w j now t).log = s.log ++ [.user j now (s.turn w now t).2] := rfl
  have hby : Event.by i (.user j now (s.turn w now t).2) =
      if j = i then some (s.turn w now t).2 else none := rfl
  rw [effects_append hlog, filterMap_single, hby]
  split
  · rfl
  · rfl

/-- A step of a user is a step of its life, and asks for the same. -/
theorem Shadows.stepUser (h : s.Shadows w gens post i l) {j : Nat} {t : Thread}
    (hj : s.user? j = some t) (now : Span) :
    ∃ l', (s.stepUser w j now t).Shadows w gens post i l' ∧
      l'.asked = l.asked ++ (if j = i then t.user.asks? else none).toList := by
  obtain ⟨ht, -⟩ := user?_eq_some hj
  have hmoved := usersMoved_stepUser w hj now
  have hgens : (s.stepUser w j now t).controller.generators = s.controller.generators := by
    rw [hmoved.controller]
  have heffects := s.effects_stepUser (w := w) j i now t
  by_cases hji : j = i
  · subst hji
    have huser := h.user t ht
    have hturn : s.turn w now t = l.user.step post w (s.view now t.retired) := by
      rw [turn, huser, h.samePost]
    rw [if_pos rfl] at heffects ⊢
    -- The life goes on with what the scene shows the user.
    refine ⟨l.next post w (.step (s.view now t.retired)), ?_, ?_⟩
    · refine h.goesOn ht _ hgens hmoved.post (fun t' ht' => ?_) hmoved.length ?_ ?_
      · rw [crew_stepUser] at ht'
        obtain ⟨t₀, -, rfl⟩ := thread_modifyUser.1 ht'
        rw [if_pos rfl, hturn, Life.next_step]
      · have hsamples : (s.effects j).filterMap User.Effect.sample? = l.samples := h.samples
        rw [samplesBy, heffects, List.filterMap_append, filterMap_single, hsamples, hturn,
          Life.next_step]
      · have hrequests : (s.effects j).filterMap User.Effect.request? = sent l.asked := h.requests
        rw [sentBy, heffects, List.filterMap_append, filterMap_single, hrequests, hturn,
          Life.requests, Life.next_step, User.request?_step, sent_append]
    · rw [huser]
      rfl
  · rw [if_neg hji] at heffects ⊢
    have hlength := Nat.le_of_eq hmoved.length.symm
    refine ⟨l, h.stays hgens hmoved.post (fun t' ht' => ?_) hlength ?_, ?_⟩
    · rw [crew_stepUser] at ht'
      obtain ⟨t₀, ht₀, rfl⟩ := thread_modifyUser.1 ht'
      rw [if_neg hji]
      exact h.user t₀ ht₀
    · rw [heffects, List.append_nil]
    · exact (List.append_nil _).symm

/-- Whatever happens in the scene, the life of the user goes on with it. -/
theorem Shadows.next (h : s.Shadows w gens post i l) (hkept : s.Kept) (choice : Choice) :
    ∃ l', (s.next w choice).Shadows w gens post i l' ∧
      l'.asked = l.asked ++ (s.asks? i choice).toList := by
  have hnothing : l.asked = l.asked ++ (none : Option Move).toList := (List.append_nil _).symm
  cases choice with
  | abort => exact ⟨l, h.abort, hnothing⟩
  | controller now => exact ⟨l, h.stepController hkept.welcomes now, hnothing⟩
  | refuse => exact ⟨l, h.refuse, hnothing⟩
  | user j now =>
    rw [Scene.next, asks?]
    cases hj : s.user? j with
    | none =>
      refine ⟨l, h, ?_⟩
      split
      · rename_i hji
        rw [← hji, hj]
        exact hnothing
      · exact hnothing
    | some t =>
      obtain ⟨l', hl', hasked⟩ := h.stepUser hj now
      refine ⟨l', hl', ?_⟩
      rw [hasked]
      -- Moves of other users are not those of the life that is followed.
      by_cases hji : j = i
      · rw [if_pos hji, if_pos hji, ← hji, hj]
        rfl
      · rw [if_neg hji, if_neg hji]
  | reply j r =>
    obtain ⟨l', hl', hasked⟩ := h.reply j r
    exact ⟨l', hl', hasked.trans hnothing⟩
  | crash j =>
    rw [Scene.next]
    cases hj : s.user? j with
    | none => exact ⟨l, h, hnothing⟩
    | some t =>
      obtain ⟨l', hl', hasked⟩ := h.crash hj
      exact ⟨l', hl', hasked.trans hnothing⟩
  | leave j =>
    rw [Scene.next]
    cases hj : s.user? j with
    | none => exact ⟨l, h.leave j, hnothing⟩
    | some t => exact ⟨l, h, hnothing⟩

/-- In every run, what a virtual user asks for and records is what it does in some life. -/
theorem Shadows.run (h : s.Shadows w gens post i l) (hkept : s.Kept) (choices : List Choice) :
    ∃ l', (s.run w choices).Shadows w gens post i l' ∧
      l'.asked = l.asked ++ s.traffic w i choices := by
  induction choices generalizing s l with
  | nil => exact ⟨l, h, (List.append_nil _).symm⟩
  | cons choice rest ih =>
    obtain ⟨l₁, hl₁, hasked₁⟩ := h.next hkept choice
    obtain ⟨l₂, hl₂, hasked₂⟩ := ih hl₁ (hkept.next choice)
    refine ⟨l₂, hl₂, ?_⟩
    rw [hasked₂, hasked₁, List.append_assoc, traffic]

/-- At first nobody has begun to live. -/
theorem shadows_start (w : Waiting) (gens : Nat → Random.Generator) (post : Post) (i : Nat) :
    (start w gens post).Shadows w gens post i (unborn gens i) :=
  ⟨rfl, rfl, ⟨[], rfl⟩, fun _ ht => (by cases ht), fun _ => rfl, rfl, rfl⟩

/-- Every virtual user of a scene has a life that begins with its own generator. -/
theorem exists_life (w : Waiting) (gens : Nat → Random.Generator) (post : Post)
    (choices : List Choice) (i : Nat) :
    ∃ l : Life, ((start w gens post).run w choices).Shadows w gens post i l ∧
      l.asked = (start w gens post).traffic w i choices := by
  have hstart : (start w gens post).Kept := kept_run w gens post []
  obtain ⟨l, hl, hasked⟩ := (shadows_start w gens post i).run hstart choices
  exact ⟨l, hl, hasked⟩

end Scene

end LoadReplay
