import LoadReplay.Proofs.Befalls
import LoadReplay.Proofs.CalmLife
import LoadReplay.Proofs.Pacing
import LoadReplay.Proofs.Readings
import Mathlib.Data.List.Chain

/-!
# When samples are taken

The samples of one virtual user do not overlap, and between two of them lies the pause that the
scenario wants there.  What carries this through a run is an invariant about the last sample and the
phase of the user (`User.InTime`): the user does not send its next request before the pause is over.
It is kept by whatever the others do, because they only let time pass.

Main statement: `Scene.samples_apart`.
-/

namespace LoadReplay

/-- When a request was answered, in nanoseconds. -/
def Sample.endedAt (a : Sample) : Nat := a.sentAt.nanos + a.latency.nanos

namespace Scenario

variable {s : Scenario} {a b c : Nat × Sample}

/-- Whether the second one of two samples, each with the number of its iteration, was taken when the
pause after the first one was over. -/
structure Apart (s : Scenario) (a b : Nat × Sample) : Prop where
  ordered : a.1 ≤ b.1
  after : a.2.endedAt + (s.gap (a.1 == b.1)).nanos ≤ b.2.sentAt.nanos

/-- Samples that are apart from one between them are apart. -/
theorem Apart.trans (hab : s.Apart a b) (hbc : s.Apart b c) : s.Apart a c := by
  have hlasts : b.2.sentAt.nanos ≤ b.2.endedAt := Nat.le_add_right _ _
  obtain ⟨hab₁, hab₂⟩ := hab
  obtain ⟨hbc₁, hbc₂⟩ := hbc
  refine ⟨Nat.le_trans hab₁ hbc₁, ?_⟩
  -- The pause after the first one is that before the second or the third one.
  by_cases hsame : a.1 = b.1
  · rw [hsame]
    omega
  · have hac : (a.1 == c.1) = (a.1 == b.1) := by
      rw [beq_false_of_ne hsame, beq_false_of_ne (by omega)]
    rw [hac]
    omega

instance : Trans s.Apart s.Apart s.Apart := ⟨Apart.trans⟩

end Scenario

namespace User

/-! ## Numbered samples -/

/-- How many iterations some steps have begun. -/
def begun (effects : List Effect) : Nat := (effects.map Effect.claimed).sum

/-- The samples that some steps have recorded, each with the number of its iteration; `n` iterations
were begun before. -/
def numbered : Nat → List Effect → List (Nat × Sample)
  | _, [] => []
  | n, e :: rest =>
    (e.sample?.map fun a => (n + e.claimed, a)).toList ++ numbered (n + e.claimed) rest

variable {effects : List Effect} {e : Effect}

/-- The samples of one effect more come last, with the iteration that was begun last. -/
theorem numbered_concat (n : Nat) (effects : List Effect) (e : Effect) :
    numbered n (effects ++ [e]) = numbered n effects ++
      (e.sample?.map fun a => (n + begun effects + e.claimed, a)).toList := by
  induction effects generalizing n with
  | nil =>
    rw [List.nil_append, numbered, numbered, numbered, List.append_nil]
    rfl
  | cons first rest ih =>
    have hbegun : begun (first :: rest) = first.claimed + begun rest := List.sum_cons
    rw [List.cons_append, numbered, ih, numbered, List.append_assoc, hbegun, Nat.add_assoc n]

/-- A claim begins an iteration. -/
theorem begun_concat (effects : List Effect) (e : Effect) :
    begun (effects ++ [e]) = begun effects + e.claimed := by
  simp [begun]

/-- They are all the samples. -/
theorem map_snd_numbered (n : Nat) (effects : List Effect) :
    (numbered n effects).map Prod.snd = effects.filterMap Effect.sample? := by
  induction effects generalizing n with
  | nil => rfl
  | cons e rest ih =>
    rw [numbered, List.map_append, ih, List.filterMap_cons]
    cases e.sample? <;> rfl

/-- A step that records nothing and claims nothing adds nothing. -/
theorem numbered_of_quiet (h : e.sample? = none) :
    numbered 0 (effects ++ [e]) = numbered 0 effects := by
  rw [numbered_concat, h]
  exact List.append_nil _

/-! ## Users that keep their time -/

variable {post : Post} {w : Waiting} {v : View} {u u' : User} {latest awake : Nat}

/-- What holds all the time of a virtual user and what its steps have done. -/
structure InTime (post : Post) (w : Waiting) (latest awake : Nat) (effects : List Effect)
    (u : User) : Prop where
  spaced : post.scenario.Spaces u.ahead
  sent : u.SentBy latest
  apart : (numbered 0 effects).IsChain post.scenario.Apart
  /-- The next request is not sent before the pause after the last one is over. -/
  next : ∀ x, (numbered 0 effects).getLast? = some x → x.1 ≤ begun effects ∧
    u.SendsFrom w latest awake
      (x.2.endedAt + (post.scenario.gap (x.1 == begun effects && sendsMore u.ahead)).nanos)

/-- The requests that lie ahead are the same ones until one of them is recorded, or an iteration
begins, or the user ends. -/
theorem Acts.sendsMore (ha : u.Acts post w v u' e) (hclaims : e.claimed = 0)
    (hrecords : e.sample? = none) :
    u'.isOver = true ∨ LoadReplay.sendsMore u'.ahead = LoadReplay.sendsMore u.ahead := by
  cases ha with
  | retires | stops | leaves | cuts | overflows => exact .inl rfl
  | claims => cases hclaims
  | records => cases hrecords
  | awaits | rests => exact .inr rfl
  | pauses d moves hphase =>
    refine .inr ?_
    rw [ahead, ahead, hphase]
    rfl
  | stays hphase | passes hphase | completes hphase | turns _ _ hphase | waits _ _ _ _ hphase
  | wakes _ _ hphase | sends _ _ hphase =>
    refine .inr ?_
    rw [ahead, ahead, hphase]

/-- The moves ahead of a user are spaced, at each of its steps. -/
theorem spaces_acts (hfits : post.scenario.minSleep.nanos < 2 ^ 64)
    (h : post.scenario.Spaces u.ahead) (ha : u.Acts post w v u' e) :
    post.scenario.Spaces u'.ahead := by
  cases ha with
  | claims => exact Post.spaces_iteration hfits _
  | pauses d moves hphase =>
    rw [ahead, hphase] at h
    exact h.tail
  | records request sentAt status moves hphase =>
    rw [ahead, hphase] at h
    exact h.tail
  | turns _ _ hphase | waits _ _ _ _ hphase | wakes _ _ hphase | sends _ _ hphase =>
    rw [ahead, hphase] at h
    exact h
  | awaits | rests => exact h
  | _ => trivial

/-- A sample is recorded when its request was sent in time, and the pause after it lies ahead. -/
theorem InTime.records (h : u.InTime post w latest awake effects) {request : PreparedRequest}
    {sentAt now : Span} {moves : List Move} {old : Option Nat}
    (hphase : u.phase = .recording request sentAt old moves) (hlate : latest ≤ now.nanos)
    (status : Option Nat) :
    ({ u with phase := .moving moves } : User).InTime post w now.nanos awake
      (effects ++ [.records (post.sample request sentAt (now - sentAt) status)]) := by
  obtain ⟨hspaced, hsent, hapart, hnext⟩ := h
  have hahead : u.ahead = .send request :: moves := by rw [ahead, hphase]
  -- The sample ends at this very reading, as its latency is the time since it was sent.
  have hsentAt : sentAt.nanos ≤ now.nanos := by
    rw [SentBy, hphase] at hsent
    exact Nat.le_trans hsent hlate
  have hended : (post.sample request sentAt (now - sentAt) status).endedAt = now.nanos := by
    show sentAt.nanos + (now.nanos - sentAt.nanos) = now.nanos
    omega
  rw [hahead] at hspaced hnext
  obtain ⟨hfollow, hspaced⟩ := hspaced
  -- What is new is its distance from the sample before; from here on it is the last one itself.
  refine ⟨hspaced, trivial, ?_, fun x hx => ?_⟩
  · rw [numbered_concat]
    refine hapart.append (.singleton _) fun x hx y hy => ?_
    obtain ⟨hle, hsends⟩ := hnext x hx
    obtain rfl : (0 + begun effects + 0, post.sample request sentAt (now - sentAt) status) = y :=
      Option.some.inj hy
    rw [SendsFrom, hphase] at hsends
    rw [Nat.zero_add, Nat.add_zero]
    refine ⟨hle, ?_⟩
    show _ ≤ sentAt.nanos
    have hmore : sendsMore (.send request :: moves) = true := rfl
    rwa [hmore, Bool.and_true] at hsends
  · rw [numbered_concat] at hx
    obtain rfl := Option.some.inj ((List.getLast?_concat).symm.trans hx)
    rw [begun_concat, Nat.zero_add]
    refine ⟨Nat.le_refl _, ?_⟩
    rw [beq_self_eq_true, Bool.true_and]
    show _ ≤ now.nanos + lead moves
    rw [hended]
    exact Nat.add_le_add_left hfollow _

/-- Every step keeps to the time. -/
theorem InTime.acts (h : u.InTime post w latest awake effects)
    (hfits : post.scenario.minSleep.nanos < 2 ^ 64) (ha : u.Acts post w v u' e)
    (hlate : latest ≤ v.now.nanos) (hawake : w = .whole → awake ≤ v.now.nanos) :
    u'.InTime post w v.now.nanos (e.wakesAt v.now awake) (effects ++ [e]) := by
  have hspaced := spaces_acts hfits h.spaced ha
  have hsent := h.sent.acts ha hlate
  have hbegun := begun_concat effects e
  by_cases hrecords : e.sample? = none
  · have hsame : numbered 0 (effects ++ [e]) = numbered 0 effects := numbered_of_quiet hrecords
    refine ⟨hspaced, hsent, by rw [hsame]; exact h.apart, fun x hx => ?_⟩
    rw [hsame] at hx
    obtain ⟨hle, hnext⟩ := h.next x hx
    have hkept := hnext.acts ha hlate hawake hrecords
    refine ⟨by omega, ?_⟩
    by_cases hclaims : e.claimed = 0
    · rw [hbegun, hclaims, Nat.add_zero]
      rcases ha.sendsMore hclaims hrecords with hover | hmore
      · exact sendsFrom_of_isOver hover
      · rw [hmore]
        exact hkept
    · -- The iteration after that of the last sample begins.
      cases ha with
      | claims hphase =>
        have hnone : LoadReplay.sendsMore u.ahead = false := by
          rw [ahead, hphase]
          rfl
        have hnew : (x.1 == begun (effects ++ [.claims])) = false := by
          rw [hbegun]
          exact beq_false_of_ne (by show x.1 ≠ begun effects + 1; omega)
        rw [hnone, Bool.and_false] at hkept
        rw [hnew, Bool.false_and]
        exact hkept
      | waits _ _ _ _ _ he => rcases he with ⟨-, rfl⟩ | ⟨_, -, rfl⟩ <;> exact absurd rfl hclaims
      | _ => exact absurd rfl hclaims
  · cases ha with
    | records request sentAt status moves hphase => exact h.records hphase hlate status
    | waits _ _ _ _ _ he => rcases he with ⟨-, rfl⟩ | ⟨_, -, rfl⟩ <;> exact absurd rfl hrecords
    | _ => exact absurd rfl hrecords

/-- Time passes. -/
theorem InTime.mono {latest' : Nat} (h : u.InTime post w latest awake effects)
    (hlate : latest ≤ latest') : u.InTime post w latest' awake effects :=
  ⟨h.spaced, h.sent.mono hlate, h.apart, fun x hx => ⟨(h.next x hx).1, (h.next x hx).2.mono hlate⟩⟩

/-- An answer keeps a user in time: the sample's moment was written down when it was sent. -/
theorem InTime.receive (h : u.InTime post w latest awake effects) (r : Reply) :
    (u.receive r).InTime post w latest awake effects := by
  obtain ⟨index, generator, iterations, phase⟩ := u
  cases phase with
  | waiting request sentAt moves =>
    cases r with
    | status code | failed => exact ⟨h.spaced, h.sent, h.apart, h.next⟩
    | cancelled => exact ⟨trivial, trivial, h.apart, fun x hx => ⟨(h.next x hx).1, trivial⟩⟩
  | _ => exact h

/-- A user that is ended by an error is in time: it records nothing more. -/
theorem InTime.crash (h : u.InTime post w latest awake effects) :
    u.crash.InTime post w latest awake effects :=
  ⟨trivial, trivial, h.apart, fun x hx => ⟨(h.next x hx).1, trivial⟩⟩

/-- A user that has done nothing yet. -/
theorem inTime_new (index : Nat) (generator : Random.Generator) :
    (User.new index generator).InTime post w latest awake [] :=
  ⟨trivial, trivial, .nil, fun _ hx => by cases hx⟩

end User

/-! ## Sleeps in one go -/

namespace Event

/-- Whether one step is not made before the sleep is over that an earlier one began. -/
def Awaits : Event → Event → Prop
  | .user i now (.sleeps d), .user j later _ => i = j → now.nanos + d.nanos ≤ later.nanos
  | _, _ => True

instance : DecidableRel Awaits
  | .user i now (.sleeps d), .user j later _ =>
    inferInstanceAs (Decidable (i = j → now.nanos + d.nanos ≤ later.nanos))
  | .user _ _ (.sleeps _), .controller _ _ | .controller _ _, _ | .user _ _ .nothing, _
  | .user _ _ .claims, _ | .user _ _ (.sends _), _ | .user _ _ (.records _), _ => .isTrue trivial

/-- Until when a step makes a virtual user sleep. -/
def wakesAt? (i : Nat) : Event → Option Nat
  | .user j now (.sleeps d) => if j = i then some (now.nanos + d.nanos) else none
  | _ => none

/-- Events of others do not tell when a user wakes. -/
theorem wakesAt?_eq_none {i : Nat} {event : Event} (h : event.by i = none) :
    event.wakesAt? i = none := by
  cases event with
  | controller => rfl
  | user j now effect =>
    rw [Event.by] at h
    split at h
    · cases h
    · rename_i hji
      cases effect with
      | sleeps d => exact if_neg hji
      | _ => rfl

end Event

namespace Scene

/-- Whether every virtual user slept as long as it was to sleep. -/
def SleepsOut (s : Scene) : Prop := s.log.Pairwise Event.Awaits

instance (s : Scene) : Decidable s.SleepsOut := inferInstanceAs (Decidable (List.Pairwise _ _))

/-- The samples that a virtual user has recorded, each with the number of its iteration. -/
def samplesIn (s : Scene) (i : Nat) : List (Nat × Sample) := User.numbered 0 (s.effects i)

/-- What the clock showed last. -/
def latest (s : Scene) : Nat := s.readings.getLast?.elim 0 Span.nanos

/-- Until when a virtual user slept last. -/
def awake (s : Scene) (i : Nat) : Nat := (s.log.filterMap (Event.wakesAt? i)).getLast?.getD 0

variable {w : Waiting} {s s' : Scene} {i : Nat} {event : Event}

/-- If nobody wakes early in a run, nobody did before its last step. -/
theorem SleepsOut.of_next {choice : Choice} (h : (s.next w choice).SleepsOut) : s.SleepsOut := by
  rw [SleepsOut] at h ⊢
  rcases log_next (w := w) s choice with hlog | ⟨event, hlog⟩
  · rwa [hlog] at h
  · rw [hlog] at h
    exact (List.pairwise_append.1 h).1

/-- The latest reading is that of the last event. -/
theorem latest_append (hlog : s'.log = s.log ++ [event]) : s'.latest = event.now.nanos := by
  have hreadings : s'.readings = s.readings ++ [event.now] := by
    rw [readings, hlog, List.map_append]
    rfl
  rw [latest, hreadings, List.getLast?_concat]
  rfl

/-- On a clock that never goes back, a reading is not before the latest one. -/
theorem Forward.latest_le (h : s'.Forward) (hlog : s'.log = s.log ++ [event]) :
    s.latest ≤ event.now.nanos := by
  rw [Forward, readings, hlog, List.map_append] at h
  rw [latest]
  cases hlast : s.readings.getLast? with
  | none => exact Nat.zero_le _
  | some r =>
    have hmem : r ∈ s.readings := List.mem_of_getLast? hlast
    exact (List.pairwise_append.1 h).2.2 r hmem event.now (List.mem_singleton_self _)

/-- When a user wakes is told by its own last event. -/
theorem awake_append {now : Span} {effect : User.Effect}
    (hlog : s'.log = s.log ++ [.user i now effect]) :
    s'.awake i = effect.wakesAt now (s.awake i) := by
  rw [awake, hlog, List.filterMap_append]
  cases effect with
  | sleeps d =>
    have hlast : [Event.user i now (.sleeps d)].filterMap (Event.wakesAt? i) =
        [now.nanos + d.nanos] := by
      have hwakes : (Event.user i now (.sleeps d)).wakesAt? i = some (now.nanos + d.nanos) :=
        if_pos rfl
      rw [List.filterMap_cons, hwakes, List.filterMap_nil]
    rw [hlast, List.getLast?_concat]
    rfl
  | _ =>
    show ((s.log.filterMap _) ++ []).getLast?.getD 0 = _
    rw [List.append_nil]
    rfl

/-- A user that makes a step is awake. -/
theorem SleepsOut.awake_le (h : s'.SleepsOut) {now : Span} {effect : User.Effect}
    (hlog : s'.log = s.log ++ [.user i now effect]) : s.awake i ≤ now.nanos := by
  rw [SleepsOut, hlog] at h
  rw [awake]
  cases hlast : (s.log.filterMap (Event.wakesAt? i)).getLast? with
  | none => exact Nat.zero_le _
  | some t =>
    obtain ⟨event, hmem, hwakes⟩ := List.mem_filterMap.1 (List.mem_of_getLast? hlast)
    have hafter := (List.pairwise_append.1 h).2.2 event hmem _ (List.mem_singleton_self _)
    cases event with
    | controller => cases hwakes
    | user j later effect =>
      cases effect with
      | sleeps d =>
        rw [Event.wakesAt?] at hwakes
        split at hwakes
        · rename_i hji
          obtain rfl := Option.some.inj hwakes
          exact hafter hji
        · cases hwakes
      | _ => cases hwakes

/-- Where a virtual user makes no step, at most time passes. -/
theorem passes_next {choice : Choice} (hforward : (s.next w choice).Forward)
    (heffects : (s.next w choice).effects i = s.effects i) :
    s.latest ≤ (s.next w choice).latest ∧ (s.next w choice).awake i = s.awake i := by
  rcases log_next (w := w) s choice with hlog | ⟨event, hlog⟩
  · have hreadings : (s.next w choice).readings = s.readings := congrArg (List.map Event.now) hlog
    rw [latest, latest, hreadings, awake, hlog]
    exact ⟨Nat.le_refl _, rfl⟩
  · refine ⟨by rw [latest_append hlog]; exact hforward.latest_le hlog, ?_⟩
    have hby : event.by i = none := by
      rw [effects_append hlog] at heffects
      have hnone := List.append_right_eq_self.1 heffects
      rw [List.filterMap_cons] at hnone
      cases hevent : event.by i with
      | none => rfl
      | some effect =>
        rw [hevent] at hnone
        cases hnone
    rw [awake, hlog, List.filterMap_append, List.filterMap_cons,
      Event.wakesAt?_eq_none hby, List.filterMap_nil, List.append_nil]
    rfl

/-! ## Runs -/

/-- What holds all the time of one virtual user and its samples. -/
structure Punctual (w : Waiting) (s : Scene) (i : Nat) : Prop where
  unborn : s.member? i = none → s.effects i = []
  inTime : ∀ u, s.member? i = some u →
    u.InTime s.controller.post w s.latest (s.awake i) (s.effects i)

/-- A user that is there and in time is punctual. -/
theorem punctual_of_member? {u : User} (hu : s.member? i = some u)
    (h : u.InTime s.controller.post w s.latest (s.awake i) (s.effects i)) : s.Punctual w i := by
  refine ⟨fun hnone => ?_, fun u' hu' => ?_⟩
  · cases hu.symm.trans hnone
  · obtain rfl := Option.some.inj (hu.symm.trans hu')
    exact h

/-- Whatever happens, a virtual user keeps its time. -/
theorem Punctual.next (h : s.Punctual w i) (hwelcomes : s.controller.Welcomes)
    (hfits : s.controller.post.scenario.minSleep.nanos < 2 ^ 64) (choice : Choice)
    (hforward : (s.next w choice).Forward) (hsleeps : w = .whole → (s.next w choice).SleepsOut) :
    (s.next w choice).Punctual w i := by
  have hpost := next_post w s choice
  have hpasses := passes_next (i := i) hforward
  -- What the choice does to this one user; whatever else happens only lets time pass.
  cases next_befalls (w := w) (i := i) hwelcomes choice with
  | nothing hquiet hmember heffects =>
    obtain ⟨hlate, hawake⟩ := hpasses heffects
    refine ⟨fun hnone => ?_, fun u hu => ?_⟩
    · rw [heffects]
      exact h.unborn (hmember ▸ hnone)
    · rw [hpost, heffects, hawake]
      exact (h.inTime u (hmember ▸ hu)).mono hlate
  | begins hquiet hnone hmember heffects =>
    refine punctual_of_member? hmember ?_
    rw [heffects, h.unborn hnone]
    exact User.inTime_new _ _
  | steps now t hchoice ht hmember heffects =>
    refine punctual_of_member? hmember ?_
    have hlog : (s.next w choice).log = s.log ++ [.user i now (s.turn w now t).2] := by
      rw [hchoice, Scene.next, ht]
      rfl
    rw [hpost, heffects, latest_append hlog, awake_append hlog]
    have hacts := User.acts s.controller.post w (s.view now t.retired) t.user
    exact (h.inTime t.user (member?_of_user? ht)).acts hfits hacts (hforward.latest_le hlog)
      fun hw => (hsleeps hw).awake_le hlog
  | receives r u hchoice hu hmember heffects =>
    obtain ⟨hlate, hawake⟩ := hpasses heffects
    refine punctual_of_member? hmember ?_
    rw [hpost, heffects, hawake]
    exact ((h.inTime u hu).receive r).mono hlate
  | crashes t hchoice ht hmember heffects =>
    obtain ⟨hlate, hawake⟩ := hpasses heffects
    refine punctual_of_member? hmember ?_
    rw [hpost, heffects, hawake]
    exact (h.inTime t.user (member?_of_user? ht)).crash.mono hlate

/-- In every run on a clock that serves. -/
theorem punctual_run (w : Waiting) (gens : Nat → Random.Generator) {post : Post}
    (hfits : post.scenario.minSleep.nanos < 2 ^ 64) (choices : List Choice) (i : Nat)
    (hforward : ((start w gens post).run w choices).Forward)
    (hsleeps : w = .whole → ((start w gens post).run w choices).SleepsOut) :
    ((start w gens post).run w choices).Punctual w i := by
  induction choices using List.reverseRecOn with
  | nil => exact ⟨fun _ => rfl, fun u hu => by cases hu⟩
  | append_singleton choices choice ih =>
    rw [run_concat] at hforward hsleeps ⊢
    have hold := ih hforward.of_next fun hw => (hsleeps hw).of_next
    refine hold.next (kept_run w gens post choices).welcomes ?_ choice hforward hsleeps
    rw [run_post]
    exact hfits

/-- The samples of one iteration of a punctual user are apart, two by two. -/
theorem Punctual.pairwise (h : s.Punctual w i) :
    (s.samplesIn i).Pairwise s.controller.post.scenario.Apart := by
  rw [samplesIn]
  cases hmember : s.member? i with
  | none =>
    rw [h.unborn hmember]
    exact .nil
  | some u => exact (h.inTime u hmember).apart.pairwise

/-- **The samples of a virtual user never overlap, and they respect its pauses.**  In every run in
which the clock never goes back, and in which whoever sleeps in one go sleeps as long as it is to
sleep, let the samples that a virtual user has recorded be numbered by its iterations.  The second
one of any two of them was sent

* when the first one was answered, and not in an earlier iteration;
* if both belong to the same iteration, even across groups, the least pause between two requests
  after that;
* if it belongs to a later iteration, the iteration pause after that. -/
theorem samples_apart (w : Waiting) (gens : Nat → Random.Generator) {post : Post}
    (hfits : post.scenario.minSleep.nanos < 2 ^ 64) (choices : List Choice) (i : Nat)
    (hforward : ((start w gens post).run w choices).Forward)
    (hsleeps : w = .whole → ((start w gens post).run w choices).SleepsOut) :
    let s := (start w gens post).run w choices
    (s.samplesIn i).map Prod.snd = s.samplesBy i ∧
      (s.samplesIn i).Pairwise fun a b =>
        a.2.endedAt ≤ b.2.sentAt.nanos ∧ a.1 ≤ b.1 ∧
          (a.1 = b.1 → a.2.endedAt + post.scenario.minSleep.nanos ≤ b.2.sentAt.nanos) ∧
          (a.1 < b.1 → a.2.endedAt + post.scenario.iterationPause.nanos ≤ b.2.sentAt.nanos) := by
  intro s
  have hpunctual : s.Punctual w i := punctual_run w gens hfits choices i hforward hsleeps
  have hpost : s.controller.post = post := run_post w gens post choices
  refine ⟨User.map_snd_numbered 0 _, hpunctual.pairwise.imp fun {a b} hapart => ?_⟩
  rw [hpost] at hapart
  obtain ⟨hordered, hafter⟩ := hapart
  refine ⟨Nat.le_of_add_right_le hafter, hordered, fun hsame => ?_, fun hlater => ?_⟩
  · rw [hsame, beq_self_eq_true] at hafter
    exact hafter
  · rw [beq_false_of_ne (Nat.ne_of_lt hlater)] at hafter
    exact hafter

/-- One page of each of two groups, twice. -/
def browse : Post :=
  { scenario :=
      { Scenario.new "browse" (.fixedIterations 2 1) with
        minSleep := .millis 1, maxSleep := .millis 3, iterationPause := .millis 5 }
    groups :=
      [{ label := "site", shuffle := false, requests := [Life.page "/a"] },
        { label := "shop", shuffle := false, requests := [Life.page "/b"] }] }

/-- The user makes its first iteration, and sends the first request of the second one. -/
def browsing : List Choice :=
  List.flatten
    [.replicate 7 (.controller .zero), .replicate 7 (.user 0 .zero), [.reply 0 (.status 200)],
      .replicate 3 (.user 0 (.millis 2)), .replicate 3 (.user 0 (.millis 5)), [.reply 0 .failed],
      .replicate 3 (.user 0 (.millis 6)), .replicate 9 (.user 0 (.millis 11)),
      [.reply 0 (.status 200), .user 0 (.millis 12)]]

/-- Two requests of one iteration, half a second apart. -/
theorem samples_apart_browse :
    let s := (start .whole (.seeded 0 "browse") browse).run .whole browsing
    s.Forward ∧ s.SleepsOut ∧
      (s.samplesIn 0).map (fun x => (x.1, x.2.sentAt.nanos, x.2.endedAt)) =
        [(1, 0, 2000000), (1, 5000000, 6000000), (2, 11000000, 12000000)] ∧
      (s.samplesIn 0).Pairwise fun a b =>
        a.2.endedAt ≤ b.2.sentAt.nanos ∧ a.1 ≤ b.1 ∧
          (a.1 = b.1 → a.2.endedAt + 1000000 ≤ b.2.sentAt.nanos) ∧
          (a.1 < b.1 → a.2.endedAt + 5000000 ≤ b.2.sentAt.nanos) := by
  intro s
  have hforward : s.Forward := by decide +kernel
  have hsleeps : s.SleepsOut := by decide +kernel
  have hapart := (samples_apart .whole (.seeded 0 "browse") (by decide) browsing 0 hforward
    fun _ => hsleeps).2
  exact ⟨hforward, hsleeps, by decide +kernel, hapart⟩

end Scene

end LoadReplay
