import LoadReplay.Proofs.Callers
import Mathlib.Data.List.Nodup
import Mathlib.Data.List.Perm.Subperm

/-!
# Who is woken by an abort

A listener and its clones share one receiver, and an abort sends it one message.  Of all callers
that found the flag not set, one is woken by each message; the others stay behind
(`Watch.wakeups`).  A listener without clones is never left behind, because its caller comes alone.

`Watch.Ledger` keeps the account of each receiver, and `Watch.Sound` is all that every step keeps.
-/

namespace LoadReplay.Abort

/-- Whether a call waits for a message of a receiver, and stands at one of some stages. -/
def Call.isAt (n : Nat) (stages : Wait → Bool) : Call → Bool
  | .waiting _ l stage => l.receiver = n && stages stage
  | .latching | .sending | .done => false

namespace Watch

/-- How many calls on a receiver have found the flag not set. -/
def passedAt (v : Watch) (n : Nat) : Nat := v.passed.countP fun p => p.2.receiver = n

/-- How many calls on a receiver are not over. -/
def blockedAt (v : Watch) (n : Nat) : Nat := v.calls.countP (Call.isAt n (· ≠ .over))

/-- How many listeners share a receiver. -/
def sharers (v : Watch) (n : Nat) : Nat := v.listeners.countP fun l => l.receiver = n

variable {v v' : Watch}

/-! ## What has become of the messages -/

/-- How many calls on a receiver have found the flag not set and have not been woken. -/
def pendingAt (v : Watch) (n : Nat) : Nat := v.calls.countP (Call.isAt n Wait.isPending)

/-- How many calls hold a receiver. -/
def receivingAt (v : Watch) (n : Nat) : Nat := v.calls.countP (Call.isAt n (· = .receiving))

/-- Whether every receiver is held by whoever takes from it, and no caller is woken without a
message.  Once somebody on a receiver has found the flag not set, it is there for every message; as
many of them as it keeps, and one more, have each woken a caller or are still to be taken. -/
structure Ledger (v : Watch) : Prop where
  held : ∀ n r, v.signal.receivers[n]? = some r → v.receivingAt n = r.held.toNat
  pending : ∀ n, v.pendingAt n ≤ v.passedAt n
  account : ∀ n r, v.signal.receivers[n]? = some r →
    v.passedAt n = 0 ∨
      v.passedAt n + r.messages ≤ v.completed + v.pendingAt n ∧
        v.pendingAt n + min v.completed (capacity + 1) ≤
          v.passedAt n + min r.messages (capacity + 1)

/-- There is nobody before a receiver that there is not. -/
theorem Placed.nobody (h : v.Placed) {n : Nat} (hn : v.signal.receivers.length ≤ n) :
    v.passedAt n = 0 ∧ ∀ stages, v.calls.countP (Call.isAt n stages) = 0 := by
  have hne {id : Nat} {l : Listener} (hl : v.listeners[id]? = some l) : l.receiver ≠ n := by
    have hlt := h.listeners l (List.mem_of_getElem? hl)
    omega
  refine ⟨List.countP_eq_zero.2 fun p hp => ?_, fun stages => List.countP_eq_zero.2 fun c hc => ?_⟩
  · simpa using hne (h.passed p hp)
  · cases c with
    | waiting id l stage =>
      have hl := hne (h.callers id l stage hc)
      simp [Call.isAt, hl]
    | _ => exact fun hat => (by cases hat)

section CallerStep

variable {k id : Nat} {l : Listener} {stage stage' : Wait}

/-- What a step of a caller does to the number of those who hold a receiver. -/
theorem receivingAt_set (hcalls : v'.calls = v.calls.set k (.waiting id l stage'))
    (hk : v.calls[k]? = some (.waiting id l stage)) (n : Nat) :
    v'.receivingAt n + (decide (l.receiver = n) && decide (stage = .receiving)).toNat =
      v.receivingAt n + (decide (l.receiver = n) && decide (stage' = .receiving)).toNat := by
  rw [receivingAt, hcalls]
  exact countP_set (Call.isAt n (· = .receiving)) (.waiting id l stage') hk

/-- And what it does to the number of those who are to be woken. -/
theorem pendingAt_set (hcalls : v'.calls = v.calls.set k (.waiting id l stage'))
    (hk : v.calls[k]? = some (.waiting id l stage)) (n : Nat) :
    v'.pendingAt n + (decide (l.receiver = n) && stage.isPending).toNat =
      v.pendingAt n + (decide (l.receiver = n) && stage'.isPending).toNat := by
  rw [pendingAt, hcalls]
  exact countP_set (Call.isAt n Wait.isPending) (.waiting id l stage') hk

/-- Nobody completes an abort by going on to wait. -/
theorem completed_set (hcalls : v'.calls = v.calls.set k (.waiting id l stage'))
    (hk : v.calls[k]? = some (.waiting id l stage)) : v'.completed = v.completed := by
  have hcount := countP_set (· = .done) (.waiting id l stage') hk
  rw [completed, hcalls, completed]
  simpa using hcount

/-- A caller gets hold of its receiver, or is woken by a message, or is over at once. -/
theorem Ledger.moves (h : v.Ledger) (hk : v.calls[k]? = some (.waiting id l stage))
    (hcalls : v'.calls = v.calls.set k (.waiting id l stage')) (hpassed : v'.passed = v.passed)
    (hpending : stage'.isPending = true → stage.isPending = true)
    (hreceivers : ∀ n r', v'.signal.receivers[n]? = some r' →
      ∃ r, v.signal.receivers[n]? = some r ∧ (l.receiver ≠ n → r' = r) ∧
        (l.receiver = n →
          r'.held.toNat + (decide (stage = .receiving)).toNat =
              r.held.toNat + (decide (stage' = .receiving)).toNat ∧
            (stage'.isPending = stage.isPending ∧ r'.messages = r.messages ∨
              (stage.isPending = true ∧ stage'.isPending = false) ∧
                0 < r.messages ∧ r'.messages = min capacity (r.messages - 1)))) :
    v'.Ledger := by
  refine ⟨fun n r' hr' => ?_, fun n => ?_, fun n r' hr' => ?_⟩
  · obtain ⟨r, hr, hother, hown⟩ := hreceivers n r' hr'
    have hcount := receivingAt_set hcalls hk n
    have hheld := h.held n r hr
    by_cases hn : l.receiver = n
    · obtain ⟨hheld', -⟩ := hown hn
      simp only [hn, decide_true, Bool.true_and] at hcount
      omega
    · rw [hother hn]
      simp only [hn, decide_false, Bool.false_and, Bool.toNat_false] at hcount
      omega
  · have hcount := pendingAt_set hcalls hk n
    have hle := h.pending n
    have hfewer : (decide (l.receiver = n) && stage'.isPending).toNat ≤
        (decide (l.receiver = n) && stage.isPending).toNat := by
      cases hstage' : stage'.isPending with
      | true => exact Nat.le_of_eq (by rw [hpending hstage'])
      | false => simp
    rw [passedAt, hpassed]
    rw [passedAt] at hle
    omega
  · obtain ⟨r, hr, hother, hown⟩ := hreceivers n r' hr'
    have hcount := pendingAt_set hcalls hk n
    have haccount := h.account n r hr
    rw [completed_set hcalls hk, passedAt, hpassed]
    rw [passedAt] at haccount
    by_cases hn : l.receiver = n
    · -- A message that is taken wakes one caller; otherwise neither number changes.
      simp only [hn, decide_true, Bool.true_and] at hcount
      rcases (hown hn).2 with ⟨hstage, hmessages⟩ | ⟨⟨hstage, hstage'⟩, hmail, hmessages⟩
      · rw [hstage] at hcount
        omega
      · rw [hstage, hstage', Bool.toNat_true, Bool.toNat_false] at hcount
        omega
    · rw [hother hn]
      simp only [hn, decide_false, Bool.false_and, Bool.toNat_false] at hcount
      omega

end CallerStep

/-- A step that nobody who waits makes, and that sends nothing. -/
theorem Ledger.same (h : v.Ledger) (hreceivers : v'.signal.receivers = v.signal.receivers)
    (hpassed : v'.passed = v.passed)
    (hat : ∀ n, v'.receivingAt n = v.receivingAt n ∧ v'.pendingAt n = v.pendingAt n)
    (hcompleted : v'.completed = v.completed) : v'.Ledger := by
  refine ⟨fun n r hr => ?_, fun n => ?_, fun n r hr => ?_⟩
  · rw [hreceivers] at hr
    rw [(hat n).1]
    exact h.held n r hr
  · rw [passedAt, hpassed, (hat n).2]
    exact h.pending n
  · rw [hreceivers] at hr
    rw [passedAt, hpassed, (hat n).2, hcompleted]
    exact h.account n r hr

/-- A listener that is made now has yet to be told of what comes. -/
theorem Ledger.listens (h : v.Ledger) (hplaced : v.Placed) :
    ({ v with
      signal := v.signal.subscribe.2
      listeners := v.listeners ++ [v.signal.subscribe.1] } : Watch).Ledger := by
  have hcases {n : Nat} {r : Receiver} (hr : (v.signal.receivers ++ [⟨0, false⟩])[n]? = some r) :
      v.signal.receivers[n]? = some r ∨ v.signal.receivers.length ≤ n ∧ r = ⟨0, false⟩ := by
    rw [List.getElem?_append] at hr
    split at hr
    · exact .inl hr
    · rename_i hn
      refine .inr ⟨Nat.not_lt.1 hn, ?_⟩
      exact List.mem_singleton.1 (List.mem_of_getElem? hr)
  refine ⟨fun n r hr => ?_, h.pending, fun n r hr => ?_⟩
  · rcases hcases hr with hr | ⟨hn, rfl⟩
    · exact h.held n r hr
    · exact (hplaced.nobody hn).2 _
  · rcases hcases hr with hr | ⟨hn, rfl⟩
    · exact h.account n r hr
    · exact .inl (hplaced.nobody hn).1

/-- An abort sends a message to every receiver. -/
theorem Ledger.sends (h : v.Ledger) {k : Nat} (hk : v.calls[k]? = some .sending) :
    ({ v with signal := v.signal.send, calls := v.calls.set k .done } : Watch).Ledger := by
  have hat (n : Nat) (stages : Wait → Bool) :
      (v.calls.set k .done).countP (Call.isAt n stages) = v.calls.countP (Call.isAt n stages) := by
    have hcount := countP_set (Call.isAt n stages) .done hk
    exact Nat.add_right_cancel hcount
  have hcompleted : (v.calls.set k .done).countP (· = .done) = v.completed + 1 := by
    have hcount := countP_set (· = .done) .done hk
    rw [completed]
    simpa using hcount
  refine ⟨fun n r' hr' => ?_, fun n => ?_, fun n r' hr' => ?_⟩
  · obtain ⟨r, hr, rfl⟩ := Option.map_eq_some_iff.1 (List.getElem?_map.symm.trans hr')
    exact (hat n _).trans (h.held n r hr)
  · exact Nat.le_trans (Nat.le_of_eq (hat n _)) (h.pending n)
  · obtain ⟨r, hr, rfl⟩ := Option.map_eq_some_iff.1 (List.getElem?_map.symm.trans hr')
    have haccount := h.account n r hr
    have hpending := h.pending n
    show v.passedAt n = 0 ∨
      v.passedAt n + (r.messages + 1) ≤
          (v.calls.set k .done).countP _ + (v.calls.set k .done).countP _ ∧
        (v.calls.set k .done).countP _ + min ((v.calls.set k .done).countP _) (capacity + 1) ≤
          v.passedAt n + min (r.messages + 1) (capacity + 1)
    rw [hat, hcompleted]
    rw [pendingAt] at haccount hpending
    omega

/-- A caller finds the flag not set. -/
theorem Ledger.passes (h : v.Ledger) (hsingle : v.Single) {k id : Nat} {l : Listener}
    (hk : v.calls[k]? = some (.waiting id l .checking)) (hlatched : v.signal.latched = false)
    (hcalls : v'.calls = v.calls.set k (.waiting id l .locking))
    (hpassed : v'.passed = v.passed ++ [(id, l)]) (hsignal : v'.signal = v.signal) : v'.Ledger := by
  -- Before the flag is set nobody has aborted the run.
  have hcompleted : v.completed = 0 := by
    refine List.countP_eq_zero.2 fun c hc hdone => ?_
    rw [of_decide_eq_true hdone] at hc
    exact (hsingle.quiet hlatched).2.1 hc
  have hmore (n : Nat) : v'.passedAt n = v.passedAt n + (decide (l.receiver = n)).toNat := by
    rw [passedAt, hpassed, List.countP_append, List.countP_singleton, passedAt]
    by_cases hn : l.receiver = n
    · simp [hn]
    · simp [hn]
  have hmore' (n : Nat) : v'.pendingAt n = v.pendingAt n + (decide (l.receiver = n)).toNat := by
    have hcount := pendingAt_set hcalls hk n
    simpa only [Wait.isPending, Bool.and_true, Bool.and_false, Bool.toNat_false,
      Nat.add_zero] using hcount
  refine ⟨fun n r hr => ?_, fun n => ?_, fun n r hr => ?_⟩
  · rw [hsignal] at hr
    have hcount := receivingAt_set hcalls hk n
    have hheld := h.held n r hr
    simp only [reduceCtorEq, decide_false, Bool.and_false, Bool.toNat_false] at hcount
    omega
  · rw [hmore, hmore']
    exact Nat.add_le_add_right (h.pending n) _
  · rw [hsignal] at hr
    -- And nothing has been sent, so the account of the receiver has only who waits for it.
    have hmail := (hsingle.quiet hlatched).2.2 r (List.mem_of_getElem? hr)
    have hpending := h.pending n
    have haccount := h.account n r hr
    rw [completed_set hcalls hk, hmore, hmore']
    omega

/-- Whoever takes the lock takes no message by that. -/
theorem Ledger.locks (h : v.Ledger) {k id : Nat} {l : Listener}
    (hk : v.calls[k]? = some (.waiting id l .locking))
    (hheld : ∀ r, v.signal.receivers[l.receiver]? = some r → r.held = false) :
    ({ v with
      signal := v.signal.modify l fun r => { r with held := true }
      calls := v.calls.set k (.waiting id l .receiving) } : Watch).Ledger := by
  refine h.moves hk rfl rfl (fun _ => rfl) fun n r' hr' => ?_
  obtain ⟨r, hr, rfl⟩ := receivers_modify.1 hr'
  refine ⟨r, hr, fun hn => if_neg hn, fun hn => ?_⟩
  rw [if_pos hn, hheld r (by rw [hn]; exact hr)]
  exact ⟨rfl, .inl ⟨rfl, rfl⟩⟩

/-- A caller is woken by a message. -/
theorem Ledger.takes (h : v.Ledger) {k id : Nat} {l : Listener} {r₀ : Receiver}
    (hk : v.calls[k]? = some (.waiting id l .receiving))
    (hr₀ : v.signal.receivers[l.receiver]? = some r₀) (hmail : 0 < r₀.messages) :
    ({ v with
      signal := v.signal.modify l Receiver.take
      calls := v.calls.set k (.waiting id l .over) } : Watch).Ledger := by
  refine h.moves hk rfl rfl (fun hover => (by cases hover)) fun n r' hr' => ?_
  obtain ⟨r, hr, rfl⟩ := receivers_modify.1 hr'
  refine ⟨r, hr, fun hn => if_neg hn, fun hn => ?_⟩
  obtain rfl : r₀ = r := by
    rw [hn, hr, Option.some.injEq] at hr₀
    exact hr₀.symm
  -- Whoever takes the message holds the receiver.
  have hheld : r₀.held = true := by
    have hcount := h.held n r₀ hr
    have hpos : 0 < v.receivingAt n :=
      List.countP_pos_iff.2 ⟨_, List.mem_of_getElem? hk, by simp [Call.isAt, hn]⟩
    cases hheld : r₀.held with
    | true => rfl
    | false =>
      rw [hheld] at hcount
      exact absurd hcount (Nat.ne_of_gt hpos)
  rw [if_pos hn, hheld]
  exact ⟨rfl, .inr ⟨⟨rfl, rfl⟩, hmail, rfl⟩⟩

/-- Each rule keeps the ledger. -/
theorem Ledger.acts (h : v.Ledger) (hplaced : v.Placed) (hsingle : v.Single) (ha : v.Acts v') :
    v'.Ledger := by
  -- Steps that neither wait nor send leave every count; the others have lemmas of their own.
  cases ha with
  | rests => exact h
  | aborts =>
    exact h.same rfl rfl (fun n => ⟨countP_call v _ _, countP_call v _ _⟩) (countP_call v _ _)
  | listens => exact h.listens hplaced
  | clones l hl => exact ⟨h.held, h.pending, h.account⟩
  | waits id l hl hfree =>
    refine h.same rfl rfl (fun n => ⟨?_, ?_⟩) (countP_call v _ _)
    · rw [receivingAt, countP_call]
      simp [Call.isAt, receivingAt]
    · rw [pendingAt, countP_call]
      simp [Call.isAt, pendingAt, Wait.isPending]
  | latches k hk =>
    have hcount (p : Call → Bool) (hp : p .latching = p .sending) :
        (v.calls.set k .sending).countP p = v.calls.countP p := by
      have hcount := countP_set p .sending hk
      rw [hp] at hcount
      exact Nat.add_right_cancel hcount
    exact h.same rfl rfl (fun n => ⟨hcount _ rfl, hcount _ rfl⟩) (hcount _ rfl)
  | sends k hk => exact h.sends hk
  | sees k id l hk hlatched =>
    exact h.moves hk rfl rfl (fun hover => (by cases hover)) fun n r hr =>
      ⟨r, hr, fun _ => rfl, fun _ => ⟨rfl, .inl ⟨rfl, rfl⟩⟩⟩
  | passes k id l hk hlatched => exact h.passes hsingle hk hlatched rfl rfl rfl
  | locks k id l hk hheld => exact h.locks hk hheld
  | takes k id l r hk hr hmail => exact h.takes hk hr hmail

/-! ## Runs -/

/-- What holds all the time. -/
structure Sound (v : Watch) : Prop where
  placed : v.Placed
  single : v.Single
  ledger : v.Ledger

/-- At first nobody has called. -/
theorem sound_start : start.Sound where
  placed := ⟨fun _ h => (by cases h), fun _ _ _ h => (by cases h), fun _ h => (by cases h)⟩
  single :=
    ⟨fun _ => ⟨fun h => (by cases h), fun h => (by cases h), fun _ h => (by cases h)⟩,
      fun _ => Nat.zero_le 1, fun _ => Nat.zero_le 1, fun _ _ => rfl⟩
  ledger := ⟨fun _ _ h => (by cases h), fun _ => Nat.le_refl 0, fun _ _ h => (by cases h)⟩

/-- Whatever happens, a watch stays sound. -/
theorem sound_run (choices : List Choice) : (start.run choices).Sound := by
  have hrun (choices : List Choice) (v : Watch) (h : v.Sound) : (v.run choices).Sound := by
    induction choices generalizing v with
    | nil => exact h
    | cons choice rest ih =>
      have ha := v.acts choice
      exact ih _ ⟨h.placed.acts ha, h.single.acts ha, h.ledger.acts h.placed h.single ha⟩
  exact hrun choices start sound_start

/-! ## When nothing can go on -/

/-- Where a call stands that cannot go on: it is over, or someone else holds its receiver, or there
is no message for it. -/
theorem stage_of_isStuck (hstuck : v.isStuck = true) {k id : Nat} {l : Listener} {stage : Wait}
    (hk : v.calls[k]? = some (.waiting id l stage)) :
    stage = .over ∨
      stage = .locking ∧ (∃ r, v.signal.receivers[l.receiver]? = some r ∧ r.held = true) ∨
      stage = .receiving ∧ ∀ r, v.signal.receivers[l.receiver]? = some r → r.messages = 0 := by
  have hlt : k < v.calls.length := (List.getElem?_eq_some_iff.1 hk).1
  have hnone : v.step? k = none :=
    Option.isNone_iff_eq_none.1 (List.all_eq_true.1 hstuck k (List.mem_range.2 hlt))
  rw [step?, hk] at hnone
  replace hnone : stage.step? v.signal l = none := Option.map_eq_none_iff.1 hnone
  -- Only two steps of a wait can fail: taking the lock and taking a message.
  cases stage with
  | checking => cases hnone
  | locking =>
    refine .inr (.inl ⟨rfl, ?_⟩)
    rw [Wait.step?] at hnone
    split at hnone
    · rename_i hheld
      obtain ⟨r, hr, hheld⟩ := (Option.any_eq_true _ _).1 hheld
      exact ⟨r, hr, hheld⟩
    · cases hnone
  | receiving =>
    refine .inr (.inr ⟨rfl, fun r hr => ?_⟩)
    rw [Wait.step?] at hnone
    split at hnone
    · cases hnone
    · rename_i hmail
      rw [hr] at hmail
      simpa using hmail
  | _ => exact .inl rfl

/-- Then all that are not over have found the flag not set. -/
theorem blockedAt_of_isStuck (hstuck : v.isStuck = true) (n : Nat) :
    v.blockedAt n = v.pendingAt n := by
  refine List.countP_congr fun c hc => ?_
  cases c with
  | waiting id l stage =>
    obtain ⟨k, hk⟩ := List.mem_iff_getElem?.1 hc
    rcases stage_of_isStuck hstuck hk with rfl | ⟨rfl, -⟩ | ⟨rfl, -⟩
    · simp [Call.isAt, Wait.isPending]
    · simp [Call.isAt, Wait.isPending]
    · simp [Call.isAt, Wait.isPending]
  | _ => exact Iff.rfl

/-- And if there is one of them on a receiver, there is no message left. -/
theorem Ledger.messages_eq_zero (h : v.Ledger) (hstuck : v.isStuck = true) {n : Nat} {r : Receiver}
    (hr : v.signal.receivers[n]? = some r) (hpending : 0 < v.pendingAt n) : r.messages = 0 := by
  have hreceiving {c : Call} (hc : c ∈ v.calls) (hat : c.isAt n (· = .receiving) = true) :
      r.messages = 0 := by
    cases c with
    | waiting id l stage =>
      obtain ⟨k, hk⟩ := List.mem_iff_getElem?.1 hc
      obtain ⟨hn, rfl⟩ : l.receiver = n ∧ stage = .receiving := by simpa [Call.isAt] using hat
      rcases stage_of_isStuck hstuck hk with hover | ⟨hlocking, -⟩ | ⟨-, hmail⟩
      · cases hover
      · cases hlocking
      · exact hmail r (by rw [hn]; exact hr)
    | _ => cases hat
  obtain ⟨c, hc, hat⟩ := List.countP_pos_iff.1 hpending
  cases c with
  | waiting id l stage =>
    obtain ⟨k, hk⟩ := List.mem_iff_getElem?.1 hc
    obtain ⟨hn, hstage⟩ : l.receiver = n ∧ stage.isPending = true := by simpa [Call.isAt] using hat
    rcases stage_of_isStuck hstuck hk with rfl | ⟨-, r', hr', hheld⟩ | ⟨rfl, -⟩
    · cases hstage
    · -- Someone else holds the receiver, and waits for a message.
      obtain rfl : r = r' := by
        rw [hn, hr, Option.some.injEq] at hr'
        exact hr'
      have hcount := h.held n r hr
      rw [hheld] at hcount
      have hpos : 0 < v.receivingAt n := by
        rw [hcount]
        exact Nat.one_pos
      obtain ⟨c', hc', hat'⟩ := List.countP_pos_iff.1 hpos
      exact hreceiving hc' hat'
    · exact hreceiving hc (by simp [Call.isAt, hn])
  | _ => cases hat

/-- Of the calls on a receiver that have found the flag not set, each abort has woken no more than
one, and as many aborts as the receiver keeps messages, and one more, have each woken one. -/
theorem Sound.blockedAt_bounds (h : v.Sound) (hstuck : v.isStuck = true) (n : Nat) :
    v.passedAt n - v.completed ≤ v.blockedAt n ∧
      v.blockedAt n ≤ v.passedAt n - min v.completed (capacity + 1) := by
  rw [blockedAt_of_isStuck hstuck]
  have hpending := h.ledger.pending n
  cases hr : v.signal.receivers[n]? with
  | none =>
    obtain ⟨hpassed, -⟩ := h.placed.nobody (List.getElem?_eq_none_iff.1 hr)
    omega
  | some r =>
    have haccount := h.ledger.account n r hr
    -- As long as somebody is to be woken, a message that was left would wake them.
    rcases Nat.eq_zero_or_pos (v.pendingAt n) with hzero | hpos
    · omega
    · have hmessages := h.ledger.messages_eq_zero hstuck hr hpos
      omega

/-- Nobody finds the flag not set on a listener twice, so that there are no more of them than
listeners. -/
theorem Sound.passedAt_le (h : v.Sound) (n : Nat) : v.passedAt n ≤ v.sharers n := by
  -- Their numbers are different places among the listeners that share the receiver.
  let ids := (v.passed.filter fun p => p.2.receiver = n).map Prod.fst
  have hsublist : ids.Sublist (v.passed.map Prod.fst) := List.filter_sublist.map _
  have hnodup : ids.Nodup := (List.nodup_iff_count_le_one.2 h.single.once).sublist hsublist
  have hsub : ids ⊆ v.listeners.findIdxs fun l => l.receiver = n := by
    intro id hid
    obtain ⟨p, hp, rfl⟩ := List.mem_map.1 hid
    obtain ⟨hmem, hn⟩ := List.mem_filter.1 hp
    obtain ⟨hlt, hl⟩ := List.getElem?_eq_some_iff.1 (h.placed.passed p hmem)
    exact List.mem_findIdxs_iff_exists_getElem_pos.2 ⟨hlt, by rw [hl]; exact hn⟩
  have hlength := (List.subperm_of_subset hnodup hsub).length_le
  rwa [List.length_map, ← List.countP_eq_length_filter, List.length_findIdxs] at hlength

/-- **Who is woken by an abort.**  Take any order of aborting, making and cloning listeners, and
waiting on them, and suppose that the run has been aborted and that nothing can go on.  Of those who
found the flag not set on a receiver, each abort has woken at most one, and as many aborts as the
receiver keeps messages, and one more, have woken one each.  So somebody is left behind as soon as
more callers found the flag not set on one receiver than there were aborts, and nobody is if on no
receiver more did than were surely woken.  It takes a clone to be left behind: there are never more
such callers than listeners that share the receiver. -/
theorem wakeups (choices : List Choice) (hstuck : (start.run choices).isStuck = true)
    (hdone : 0 < (start.run choices).completed) :
    let v := start.run choices
    (∀ n, v.passedAt n - v.completed ≤ v.blockedAt n ∧
      v.blockedAt n ≤ v.passedAt n - min v.completed (capacity + 1) ∧
      v.passedAt n ≤ v.sharers n) ∧
    ((∃ n, v.completed < v.passedAt n) →
      ∃ id l stage, .waiting id l stage ∈ v.calls ∧ stage ≠ .over) ∧
    ((∀ n, v.passedAt n ≤ min v.completed (capacity + 1)) →
      ∀ id l stage, .waiting id l stage ∈ v.calls → stage = .over) ∧
    ((∀ n, v.sharers n ≤ 1) → ∀ id l stage, .waiting id l stage ∈ v.calls → stage = .over) := by
  intro v
  have h : v.Sound := sound_run choices
  have hbounds (n : Nat) := h.blockedAt_bounds hstuck n
  -- With no more waiting at a receiver than it can serve, the upper bound says that nobody is left.
  have hall (hfew : ∀ n, v.passedAt n ≤ min v.completed (capacity + 1)) (id : Nat) (l : Listener)
      (stage : Wait) (hmem : .waiting id l stage ∈ v.calls) : stage = .over := by
    by_contra hstage
    have hpos : 0 < v.blockedAt l.receiver :=
      List.countP_pos_iff.2 ⟨_, hmem, by simp [Call.isAt, hstage]⟩
    have hle := (hbounds l.receiver).2
    have hfew := hfew l.receiver
    omega
  refine ⟨fun n => ⟨(hbounds n).1, (hbounds n).2, h.passedAt_le n⟩, ?_, hall, fun hsharers => ?_⟩
  -- With more, the lower bound says that someone is.
  · rintro ⟨n, hn⟩
    have hpos : 0 < v.blockedAt n := by
      have hle := (hbounds n).1
      omega
    obtain ⟨c, hc, hat⟩ := List.countP_pos_iff.1 hpos
    cases c with
    | waiting id l stage =>
      obtain ⟨-, hstage⟩ : l.receiver = n ∧ stage ≠ .over := by simpa [Call.isAt] using hat
      exact ⟨id, l, stage, hc, hstage⟩
    | _ => cases hat
  · have hone : 1 ≤ min v.completed (capacity + 1) := Nat.le_min.2 ⟨hdone, by decide⟩
    exact hall fun n => Nat.le_trans (h.passedAt_le n) (Nat.le_trans (hsharers n) hone)

/-- Two callers wait on a listener and its clone before the run is aborted. -/
def sharedRun : List Choice :=
  [.listen, .clone 0, .wait 0, .wait 1, .step 0, .step 1, .step 0, .abort, .step 2, .step 2,
    .step 0, .step 1]

/-- Two callers on one listener pass the flag, one abort is completed, and one of them stays
blocked. -/
theorem wakeups_shared :
    (start.run sharedRun).isStuck = true ∧ 0 < (start.run sharedRun).completed ∧
      (start.run sharedRun).passedAt 0 = 2 ∧ (start.run sharedRun).blockedAt 0 = 1 ∧
      ∃ id l stage, .waiting id l stage ∈ (start.run sharedRun).calls ∧ stage ≠ .over := by
  have hstuck : (start.run sharedRun).isStuck = true := by decide
  have hdone : 0 < (start.run sharedRun).completed := by decide
  have hpassed : (start.run sharedRun).passedAt 0 = 2 := by decide
  have hcompleted : (start.run sharedRun).completed = 1 := by decide
  obtain ⟨hbounds, hleft, -⟩ := wakeups sharedRun hstuck hdone
  have hbounds := hbounds 0
  rw [hpassed, hcompleted] at hbounds
  exact ⟨hstuck, hdone, hpassed, Nat.le_antisymm hbounds.2.1 hbounds.1, hleft ⟨0, by decide⟩⟩

end Watch

end LoadReplay.Abort
