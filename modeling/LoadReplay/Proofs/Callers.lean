import LoadReplay.Abort.Watch
import LoadReplay.Proofs.Counting

/-!
# Those who use the abort signal

`Watch.Acts` says what can happen in a step, with one rule for each thing.  Two things are kept by
every step: callers wait on listeners that there are (`Watch.Placed`), and on each listener comes
one caller at a time, so that nobody finds the flag not set twice on the same one (`Watch.Single`).
-/

namespace LoadReplay.Abort

namespace Watch

/-! ## What can happen -/

/-- What comes of a step. -/
inductive Acts (v : Watch) : Watch → Prop where
  | rests : Acts v v
  | aborts : Acts v (v.call .latching)
  | listens :
    Acts v { v with
      signal := v.signal.subscribe.2
      listeners := v.listeners ++ [v.signal.subscribe.1] }
  | clones (l : Listener) (hl : l ∈ v.listeners) :
    Acts v { v with listeners := v.listeners ++ [l] }
  | waits (id : Nat) (l : Listener) (hl : v.listeners[id]? = some l) (hfree : v.isFree id = true) :
    Acts v (v.call (.waiting id l .checking))
  | latches (k : Nat) (h : v.calls[k]? = some .latching) :
    Acts v { v with signal := v.signal.latch, calls := v.calls.set k .sending }
  | sends (k : Nat) (h : v.calls[k]? = some .sending) :
    Acts v { v with signal := v.signal.send, calls := v.calls.set k .done }
  /-- Sees that the run is aborted. -/
  | sees (k id : Nat) (l : Listener) (h : v.calls[k]? = some (.waiting id l .checking))
    (hlatched : v.signal.latched = true) :
    Acts v { v with calls := v.calls.set k (.waiting id l .over) }
  /-- Finds the flag not set. -/
  | passes (k id : Nat) (l : Listener) (h : v.calls[k]? = some (.waiting id l .checking))
    (hlatched : v.signal.latched = false) :
    Acts v { v with
      calls := v.calls.set k (.waiting id l .locking)
      passed := v.passed ++ [(id, l)] }
  | locks (k id : Nat) (l : Listener) (h : v.calls[k]? = some (.waiting id l .locking))
    (hheld : ∀ r, v.signal.receivers[l.receiver]? = some r → r.held = false) :
    Acts v { v with
      signal := v.signal.modify l fun r => { r with held := true }
      calls := v.calls.set k (.waiting id l .receiving) }
  | takes (k id : Nat) (l : Listener) (r : Receiver)
    (h : v.calls[k]? = some (.waiting id l .receiving))
    (hr : v.signal.receivers[l.receiver]? = some r) (hmail : 0 < r.messages) :
    Acts v { v with
      signal := v.signal.modify l Receiver.take
      calls := v.calls.set k (.waiting id l .over) }

/-- Whatever step a caller makes is one of the rules. -/
theorem acts_of_step? {v v' : Watch} {k : Nat} (h : v.step? k = some v') : v.Acts v' := by
  cases hcall : v.calls[k]? with
  | none =>
    rw [step?, hcall] at h
    cases h
  | some c =>
    cases c with
    | latching =>
      rw [step?, hcall] at h
      cases h
      exact .latches k hcall
    | sending =>
      rw [step?, hcall] at h
      cases h
      exact .sends k hcall
    | done =>
      rw [step?, hcall] at h
      cases h
    | waiting id l stage =>
      rw [step?, hcall] at h
      obtain ⟨⟨signal, stage'⟩, hstep, rfl⟩ := Option.map_eq_some_iff.1 h
      -- What someone who waits can do depends on what stands in its way at each stage.
      cases stage with
      | checking =>
        cases hlatched : v.signal.latched with
        | true =>
          rw [Wait.step?, hlatched] at hstep
          cases hstep
          exact .sees k id l hcall hlatched
        | false =>
          rw [Wait.step?, hlatched] at hstep
          cases hstep
          exact .passes k id l hcall hlatched
      | locking =>
        rw [Wait.step?] at hstep
        split at hstep
        · cases hstep
        · rename_i hfree
          cases hstep
          refine .locks k id l hcall fun r hr => ?_
          simpa [hr] using hfree
      | receiving =>
        rw [Wait.step?] at hstep
        split at hstep
        · rename_i hmail
          cases hstep
          obtain ⟨r, hr, hmessages⟩ := (Option.any_eq_true _ _).1 hmail
          exact .takes k id l r hcall hr (of_decide_eq_true hmessages)
        · cases hstep
      | _ => cases hstep

/-- Whatever is chosen follows one of the rules, or changes nothing. -/
theorem acts (v : Watch) (choice : Choice) : v.Acts (v.next choice) := by
  cases choice with
  | abort => exact .aborts
  | listen => exact .listens
  | clone id =>
    rw [next]
    cases hl : v.listeners[id]? with
    | none => exact .rests
    | some l =>
      -- A listener that someone waits on is not cloned, so the choice may do nothing.
      show v.Acts (if v.isFree id then _ else v)
      split
      · exact .clones l (List.mem_of_getElem? hl)
      · exact .rests
  | wait id =>
    rw [next]
    cases hl : v.listeners[id]? with
    | none => exact .rests
    | some l =>
      show v.Acts (if v.isFree id then _ else v)
      split
      · rename_i hfree
        exact .waits id l hl hfree
      · exact .rests
  | step k =>
    rw [next]
    cases hstep : v.step? k with
    | none => exact .rests
    | some v' => exact acts_of_step? hstep

/-! ## Counting calls -/

/-- A new call is counted with the others. -/
theorem countP_call (v : Watch) (p : Call → Bool) (c : Call) :
    (v.call c).calls.countP p = v.calls.countP p + (p c).toNat := by
  rw [call, List.countP_append, List.countP_singleton]
  cases p c <;> rfl

end Watch

/-- Whether someone who waits has found the flag not set and has not been woken. -/
def Wait.isPending : Wait → Bool
  | .locking | .receiving => true
  | .checking | .over => false

/-- Whether a call waits for a message on the listener with a number. -/
def Call.isPendingOn (id : Nat) : Call → Bool
  | .waiting id' _ stage => id' = id && stage.isPending
  | .latching | .sending | .done => false

namespace Watch

variable {v v' : Watch}

/-! ## Listeners and their receivers -/

/-- Only the one receiver is different. -/
theorem receivers_modify {s : Signal} {l : Listener} {f : Receiver → Receiver} {n : Nat}
    {r' : Receiver} :
    (s.modify l f).receivers[n]? = some r' ↔
      ∃ r, s.receivers[n]? = some r ∧ r' = if l.receiver = n then f r else r := by
  rw [Signal.modify, List.getElem?_modify]
  cases s.receivers[n]? <;> simp [eq_comm]

/-- Whether all listeners have receivers, and all calls wait on listeners that there are. -/
structure Placed (v : Watch) : Prop where
  listeners : ∀ l ∈ v.listeners, l.receiver < v.signal.receivers.length
  callers : ∀ id l stage, .waiting id l stage ∈ v.calls → v.listeners[id]? = some l
  passed : ∀ p ∈ v.passed, v.listeners[p.1]? = some p.2

/-- A call goes on where it is. -/
theorem Placed.set (h : v.Placed) {k : Nat} {c c' : Call} (hk : v.calls[k]? = some c)
    (hc : ∀ id l stage, c' = .waiting id l stage → ∃ stage', c = .waiting id l stage')
    (signal : Signal) (hlength : signal.receivers.length = v.signal.receivers.length) :
    ({ v with signal, calls := v.calls.set k c' } : Watch).Placed := by
  refine ⟨fun l hl => ?_, fun id l stage hmem => ?_, h.passed⟩
  · rw [hlength]
    exact h.listeners l hl
  · rcases List.mem_or_eq_of_mem_set hmem with hmem | hsame
    · exact h.callers id l stage hmem
    · obtain ⟨stage', rfl⟩ := hc id l stage hsame.symm
      exact h.callers id l stage' (List.mem_of_getElem? hk)

/-- There is one more listener. -/
theorem Placed.add (h : v.Placed) {l : Listener} {signal : Signal}
    (hl : l.receiver < signal.receivers.length)
    (hlength : v.signal.receivers.length ≤ signal.receivers.length) :
    ({ v with signal, listeners := v.listeners ++ [l] } : Watch).Placed := by
  have hkeeps {id : Nat} {l' : Listener} (hid : v.listeners[id]? = some l') :
      (v.listeners ++ [l])[id]? = some l' := by
    rw [List.getElem?_append_left (List.getElem?_eq_some_iff.1 hid).1, hid]
  refine ⟨fun l' hl' => ?_, fun id l' stage hmem => hkeeps (h.callers id l' stage hmem),
    fun p hp => hkeeps (h.passed p hp)⟩
  rcases List.mem_append.1 hl' with hl' | hl'
  · exact Nat.lt_of_lt_of_le (h.listeners l' hl') hlength
  · rwa [List.mem_singleton.1 hl']

/-- Each rule keeps calls on listeners that there are. -/
theorem Placed.acts (h : v.Placed) (ha : v.Acts v') : v'.Placed := by
  cases ha with
  | rests => exact h
  | aborts =>
    refine ⟨h.listeners, fun id l stage hmem => ?_, h.passed⟩
    rcases List.mem_append.1 hmem with hmem | hmem
    · exact h.callers id l stage hmem
    · cases List.mem_singleton.1 hmem
  | listens =>
    have hlength : v.signal.subscribe.2.receivers.length = v.signal.receivers.length + 1 :=
      List.length_append
    refine h.add ?_ (by omega)
    rw [hlength]
    exact Nat.lt_succ_self _
  | clones l hl => exact h.add (h.listeners l hl) (Nat.le_refl _)
  | waits id l hl hfree =>
    refine ⟨h.listeners, fun id' l' stage hmem => ?_, h.passed⟩
    rcases List.mem_append.1 hmem with hmem | hmem
    · exact h.callers id' l' stage hmem
    · cases List.mem_singleton.1 hmem
      exact hl
  | latches k hk => exact h.set hk (fun _ _ _ hc => (by cases hc)) _ rfl
  | sends k hk => exact h.set hk (fun _ _ _ hc => (by cases hc)) _ (List.length_map _)
  | sees k id l hk => exact h.set hk (fun _ _ _ hc => (by cases hc; exact ⟨_, rfl⟩)) _ rfl
  | passes k id l hk =>
    have hset : ({ v with
        signal := v.signal
        calls := v.calls.set k (.waiting id l .locking) } : Watch).Placed :=
      h.set hk (fun _ _ _ hc => (by cases hc; exact ⟨_, rfl⟩)) _ rfl
    -- The caller is noted as having passed the flag; it was placed while it was still looking.
    obtain ⟨hlisteners, hcallers, hpassed⟩ := hset
    refine ⟨hlisteners, hcallers, fun p hp => ?_⟩
    rcases List.mem_append.1 hp with hp | hp
    · exact hpassed p hp
    · rw [List.mem_singleton.1 hp]
      exact h.callers id l .checking (List.mem_of_getElem? hk)
  | locks k id l hk =>
    exact h.set hk (fun _ _ _ hc => (by cases hc; exact ⟨_, rfl⟩)) _ (List.length_modify _ _ _)
  | takes k id l r hk =>
    exact h.set hk (fun _ _ _ hc => (by cases hc; exact ⟨_, rfl⟩)) _ (List.length_modify _ _ _)

/-! ## One caller at a time -/

/-- How many calls wait for a message on the listener with a number. -/
def pendingOn (v : Watch) (id : Nat) : Nat := v.calls.countP (Call.isPendingOn id)

/-- Whether nobody finds the flag not set twice on the same listener. -/
structure Single (v : Watch) : Prop where
  /-- As long as the flag is not set, no message is sent. -/
  quiet : v.signal.latched = false →
    .sending ∉ v.calls ∧ .done ∉ v.calls ∧ ∀ r ∈ v.signal.receivers, r.messages = 0
  alone : ∀ id, v.calls.countP (Call.isOn id) ≤ 1
  once : ∀ id, (v.passed.map Prod.fst).count id ≤ 1
  early : v.signal.latched = false → ∀ id, (v.passed.map Prod.fst).count id = v.pendingOn id

/-- Whoever is about to send has set the flag. -/
theorem Single.latched_of_sending (h : v.Single) {k : Nat} (hk : v.calls[k]? = some .sending) :
    v.signal.latched = true := by
  cases hlatched : v.signal.latched with
  | true => rfl
  | false => exact absurd (List.mem_of_getElem? hk) (h.quiet hlatched).1

/-- A message was sent only when the flag was set. -/
theorem Single.latched_of_mail (h : v.Single) {n : Nat} {r : Receiver}
    (hr : v.signal.receivers[n]? = some r) (hmail : 0 < r.messages) : v.signal.latched = true := by
  cases hlatched : v.signal.latched with
  | true => rfl
  | false =>
    have hzero := (h.quiet hlatched).2.2 r (List.mem_of_getElem? hr)
    omega

/-- A caller that has found the flag not set is not over. -/
theorem toNat_isPendingOn_le (id : Nat) (c : Call) :
    (c.isPendingOn id).toNat ≤ (c.isOn id).toNat := by
  cases c with
  | waiting id' l stage =>
    cases stage <;> simp [Call.isPendingOn, Call.isOn, Wait.isPending]
  | _ => exact Nat.le_refl _

/-- Whoever waits for a message on a listener calls on it. -/
theorem pendingOn_le (v : Watch) (id : Nat) : v.pendingOn id ≤ v.calls.countP (Call.isOn id) := by
  refine List.countP_mono_left fun c _ hc => ?_
  have h := toNat_isPendingOn_le id c
  rw [hc] at h
  cases hon : c.isOn id with
  | true => rfl
  | false =>
    rw [hon] at h
    cases h

/-- A call goes on, and finds out nothing new about the flag. -/
theorem Single.set (h : v.Single) {k : Nat} {c c' : Call} (hk : v.calls[k]? = some c)
    {signal : Signal}
    (hquiet : signal.latched = false → v.signal.latched = false ∧ c' ≠ .sending ∧ c' ≠ .done ∧
      ∀ r ∈ signal.receivers, r.messages = 0)
    (hon : ∀ id, (c'.isOn id).toNat ≤ (c.isOn id).toNat)
    (hpending : signal.latched = false → ∀ id, c'.isPendingOn id = c.isPendingOn id) :
    ({ v with signal, calls := v.calls.set k c' } : Watch).Single := by
  -- Four facts: nothing is sent before the flag is set, nobody waits twice, and who has passed the
  -- flag is counted once, before the flag and after it.
  refine ⟨fun hlatched => ?_, fun id => ?_, h.once, fun hlatched id => ?_⟩
  · obtain ⟨hv, hsending, hdone, hmessages⟩ := hquiet hlatched
    obtain ⟨hnosending, hnodone, -⟩ := h.quiet hv
    refine ⟨fun hmem => ?_, fun hmem => ?_, hmessages⟩
    · rcases List.mem_or_eq_of_mem_set hmem with hmem | hsame
      · exact hnosending hmem
      · exact hsending hsame.symm
    · rcases List.mem_or_eq_of_mem_set hmem with hmem | hsame
      · exact hnodone hmem
      · exact hdone hsame.symm
  · have hcount := countP_set (Call.isOn id) c' hk
    have hle := hon id
    have halone := h.alone id
    show (v.calls.set k c').countP (Call.isOn id) ≤ 1
    omega
  · have hcount := countP_set (Call.isPendingOn id) c' hk
    rw [hpending hlatched id] at hcount
    have hearly := h.early (hquiet hlatched).1 id
    rw [pendingOn] at hearly
    show (v.passed.map Prod.fst).count id = (v.calls.set k c').countP (Call.isPendingOn id)
    omega

/-- Someone begins a call. -/
theorem Single.call (h : v.Single) {c : Call} (hsending : c ≠ .sending) (hdone : c ≠ .done)
    (halone : ∀ id, v.calls.countP (Call.isOn id) + (c.isOn id).toNat ≤ 1)
    (hpending : ∀ id, c.isPendingOn id = false) : (v.call c).Single := by
  refine ⟨fun hlatched => ?_, fun id => ?_, h.once, fun hlatched id => ?_⟩
  · obtain ⟨hnosending, hnodone, hmessages⟩ := h.quiet hlatched
    refine ⟨fun hmem => ?_, fun hmem => ?_, hmessages⟩
    · rcases List.mem_append.1 hmem with hmem | hmem
      · exact hnosending hmem
      · exact hsending (List.mem_singleton.1 hmem).symm
    · rcases List.mem_append.1 hmem with hmem | hmem
      · exact hnodone hmem
      · exact hdone (List.mem_singleton.1 hmem).symm
  · rw [countP_call]
    exact halone id
  · rw [pendingOn, countP_call, hpending id]
    exact h.early hlatched id

/-- Nobody calls on a listener that is free. -/
theorem countP_isOn_eq_zero {id : Nat} (hfree : v.isFree id = true) :
    v.calls.countP (Call.isOn id) = 0 := by
  refine List.countP_eq_zero.2 fun c hc hon => ?_
  have hnot := List.all_eq_true.1 hfree c hc
  rw [hon] at hnot
  cases hnot

/-- A caller finds the flag not set. -/
theorem Single.passes (h : v.Single) {k id : Nat} {l : Listener}
    (hk : v.calls[k]? = some (.waiting id l .checking)) (hlatched : v.signal.latched = false) :
    ({ v with
      calls := v.calls.set k (.waiting id l .locking)
      passed := v.passed ++ [(id, l)] } : Watch).Single := by
  have hon (id' : Nat) : (v.calls.set k (.waiting id l .locking)).countP (Call.isOn id') =
      v.calls.countP (Call.isOn id') := by
    have hcount := countP_set (Call.isOn id') (.waiting id l .locking) hk
    simpa [Call.isOn] using hcount
  have hpending (id' : Nat) :
      (v.calls.set k (.waiting id l .locking)).countP (Call.isPendingOn id') =
        v.pendingOn id' + if id = id' then 1 else 0 := by
    have hcount := countP_set (Call.isPendingOn id') (.waiting id l .locking) hk
    rw [pendingOn]
    by_cases hid : id = id'
    · simpa [Call.isPendingOn, Wait.isPending, hid] using hcount
    · simpa [Call.isPendingOn, Wait.isPending, hid] using hcount
  have hpassed (id' : Nat) : ((v.passed ++ [(id, l)]).map Prod.fst).count id' =
      (v.passed.map Prod.fst).count id' + if id = id' then 1 else 0 := by
    rw [List.map_append, List.count_append, List.map_singleton, List.count_singleton]
    by_cases hid : id = id'
    · simp [hid]
    · simp [hid]
  refine ⟨fun _ => ?_, fun id' => ?_, fun id' => ?_, fun _ id' => ?_⟩
  · obtain ⟨hnosending, hnodone, hmessages⟩ := h.quiet hlatched
    refine ⟨fun hmem => ?_, fun hmem => ?_, hmessages⟩
    · rcases List.mem_or_eq_of_mem_set hmem with hmem | hsame
      · exact hnosending hmem
      · cases hsame
    · rcases List.mem_or_eq_of_mem_set hmem with hmem | hsame
      · exact hnodone hmem
      · cases hsame
  · show (v.calls.set k (.waiting id l .locking)).countP (Call.isOn id') ≤ 1
    rw [hon]
    exact h.alone id'
  · -- The caller comes alone, so that nobody on this listener has found the flag not set before.
    have hle := pendingOn_le { v with calls := v.calls.set k (.waiting id l .locking) } id'
    have halone := h.alone id'
    have hearly := h.early hlatched id'
    have honce := h.once id'
    rw [hpassed]
    rw [pendingOn, hpending, hon] at hle
    omega
  · show ((v.passed ++ [(id, l)]).map Prod.fst).count id' =
      (v.calls.set k (.waiting id l .locking)).countP (Call.isPendingOn id')
    rw [hpassed, hpending, h.early hlatched id']

/-- No rule lets a second call find the flag not set on one listener. -/
theorem Single.acts (h : v.Single) (ha : v.Acts v') : v'.Single := by
  cases ha with
  | rests => exact h
  | aborts =>
    exact h.call (fun hc => (by cases hc)) (fun hc => (by cases hc)) (fun id => h.alone id)
      fun _ => rfl
  | listens =>
    refine ⟨fun hlatched => ?_, h.alone, h.once, h.early⟩
    obtain ⟨hnosending, hnodone, hmessages⟩ := h.quiet hlatched
    refine ⟨hnosending, hnodone, fun r hr => ?_⟩
    rcases List.mem_append.1 hr with hr | hr
    · exact hmessages r hr
    · rw [List.mem_singleton.1 hr]
  | clones l hl => exact ⟨h.quiet, h.alone, h.once, h.early⟩
  | waits id l hl hfree =>
    refine h.call (fun hc => (by cases hc)) (fun hc => (by cases hc)) (fun id' => ?_) fun id' => ?_
    · by_cases hid : id = id'
      · subst hid
        rw [countP_isOn_eq_zero hfree, Nat.zero_add]
        exact Bool.toNat_le _
      · have hoff : (Call.waiting id l .checking).isOn id' = false := by simp [Call.isOn, hid]
        rw [hoff]
        exact h.alone id'
    · simp [Call.isPendingOn, Wait.isPending]
  | latches k hk =>
    exact h.set hk (fun hlatched => (by cases hlatched)) (fun _ => Nat.le_refl _)
      fun hlatched => (by cases hlatched)
  | sends k hk =>
    -- A message is only sent when the flag is set: nothing is to be shown of a quiet signal.
    have hlatched := h.latched_of_sending hk
    have hsignal : v.signal.send.latched ≠ false := by
      rw [show v.signal.send.latched = v.signal.latched from rfl, hlatched]
      decide
    exact h.set hk (fun hfalse => absurd hfalse hsignal) (fun _ => Nat.le_refl _)
      fun hfalse => absurd hfalse hsignal
  | sees k id l hk hlatched =>
    have hsignal : v.signal.latched ≠ false := by rw [hlatched]; decide
    refine h.set hk (fun hfalse => absurd hfalse hsignal) (fun id' => ?_)
      fun hfalse => absurd hfalse hsignal
    simp [Call.isOn]
  | passes k id l hk hlatched => exact h.passes hk hlatched
  | locks k id l hk hheld =>
    refine h.set hk (fun hlatched => ?_) (fun id' => ?_) fun _ id' => ?_
    · refine ⟨hlatched, fun hc => (by cases hc), fun hc => (by cases hc), fun r' hr' => ?_⟩
      obtain ⟨n, hn⟩ := List.mem_iff_getElem?.1 hr'
      obtain ⟨r, hr, rfl⟩ := receivers_modify.1 hn
      have hzero := (h.quiet hlatched).2.2 r (List.mem_of_getElem? hr)
      split
      · exact hzero
      · exact hzero
    · simp [Call.isOn]
    · simp [Call.isPendingOn, Wait.isPending]
  | takes k id l r hk hr hmail =>
    have hlatched := h.latched_of_mail hr hmail
    have hsignal : v.signal.latched ≠ false := by rw [hlatched]; decide
    refine h.set hk (fun hfalse => absurd hfalse hsignal) (fun id' => ?_)
      fun hfalse => absurd hfalse hsignal
    simp [Call.isOn]

end Watch

end LoadReplay.Abort
