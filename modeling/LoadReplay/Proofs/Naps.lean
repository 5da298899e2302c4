import LoadReplay.Run.Nap
import Mathlib.Algebra.Order.Floor.Div
import Mathlib.Algebra.Ring.Int.Defs
import Mathlib.Tactic.Ring

/-!
# Pauses that end on time

A pause that is made of short sleeps sleeps, looks at the abort flag and reads the clock, while time
passes and an abort may come between any two of its steps.  What it can still do depends on where it
is and on how many sleeps it has begun (`Nap.Keeps`): all of them but the last one have the full
length of `pollInterval`, so after `k` of them the clock shows at least `k` times that length more
than at the beginning, or the pause has had its length.

## Shape of the proof

Every choice keeps `Keeps`, and a step uses up one of the steps that are left (`Keeps.step`).  Once
the run is aborted, no look at the flag is passed any more, so at most the sleep that was about to
begin is still begun (`Keeps.pending_next`).

Main statement: `Nap.ends_on_time`.
-/

namespace LoadReplay.Nap

variable {v : Nap} {first d most : Nat}

/-! ## What a pause keeps to -/

/-- How many sleeps a pause of a length in nanoseconds needs if none of them lasts too long. -/
def needed (d : Nat) : Nat := d ⌈/⌉ pollInterval.nanos

/-- As long as time is left, another sleep is needed. -/
theorem lt_needed {k : Nat} (h : pollInterval.nanos * k < d) : k < needed d :=
  ((gc_mul_ceilDiv (by decide)).lt_iff_lt).2 h

/-- Whether a sleep is as it should be: not empty, not longer than `pollInterval` and, when its
length was worked out, not longer than the rest of the pause. -/
def Sleep.Fits (first d : Nat) (sleep : Sleep) : Prop :=
  0 < sleep.length.nanos ∧ sleep.length ≤ pollInterval ∧
    sleep.asked.nanos + sleep.length.nanos ≤ first + d

/-- Whether some sleeps have moved the clock on by their full lengths, or the pause has had its
length. -/
def Paced (first d sleeps now : Nat) : Prop :=
  first + pollInterval.nanos * sleeps ≤ now ∨ first + d ≤ now

/-- A clock that goes on leaves a nap in pace. -/
theorem Paced.mono {sleeps now now' : Nat} (h : Paced first d sleeps now) (hle : now ≤ now') :
    Paced first d sleeps now' :=
  h.imp (fun hmoved => hmoved.trans hle) fun hfull => hfull.trans hle

/-- Where a pause can be that began when the clock showed `first`, after some of at most `most`
sleeps. -/
def Stage.Keeps (first d most sleeps : Nat) (now : Span) (aborted : Bool) : Stage → Prop
  | .up (.checking deadline) | .up (.timing deadline) =>
    deadline.nanos = first + d ∧ Paced first d sleeps now.nanos
  | .turning sleep p => (∃ deadline, p = .checking deadline ∧ deadline.nanos = first + d) ∧
      sleep.Fits first d ∧ sleeps < most ∧ sleep.asked ≤ now ∧
      Paced first d (sleeps + 1) (sleep.asked.nanos + sleep.length.nanos)
  | .asleep wake p => (∃ deadline, p = .checking deadline ∧ deadline.nanos = first + d) ∧
      Paced first d sleeps wake
  | .back full => if full then first + d ≤ now.nanos else aborted = true
  | _ => False

/-- What a pause keeps to from its first step on. -/
structure Keeps (first d most : Nat) (v : Nap) : Prop where
  stage : v.stage.Keeps first d most v.slept.length v.clock v.aborted
  fits : ∀ sleep ∈ v.slept, sleep.Fits first d
  count : v.slept.length ≤ most

/-- How many steps are left at most, with a number of sleeps left. -/
def Stage.toGo (left : Nat) : Stage → Nat
  | .up (.checking _) => 4 * left + 2
  | .up (.timing _) => 4 * left + 1
  | .turning .. => 4 * left
  | .asleep .. => 4 * left + 3
  | _ => 0

/-- How many steps are left at most. -/
def toGo (most : Nat) (v : Nap) : Nat := v.stage.toGo (most - v.slept.length)

/-- The look at the clock when the pause has not had its length yet. -/
theorem Paced.turning {sleeps : Nat} {now deadline : Span} (h : Paced first d sleeps now.nanos)
    (hdeadline : deadline.nanos = first + d) (hlt : ¬ deadline ≤ now) :
    let sleep : Sleep := ⟨now, Span.least (deadline - now) pollInterval⟩
    sleep.Fits first d ∧ sleeps < needed d ∧
      Paced first d (sleeps + 1) (sleep.asked.nanos + sleep.length.nanos) := by
  intro sleep
  rw [Span.le_def, Nat.not_le, hdeadline] at hlt
  have hpos : 0 < pollInterval.nanos := by decide
  have hlength : sleep.length.nanos = min (first + d - now.nanos) pollInterval.nanos := by
    rw [Span.nanos_least, Span.nanos_sub, hdeadline]
  have hasked : sleep.asked.nanos = now.nanos := rfl
  have hmoved : first + pollInterval.nanos * sleeps ≤ now.nanos := h.resolve_right (by omega)
  refine ⟨?_, lt_needed (by omega), ?_⟩
  · rw [Sleep.Fits, Span.le_def]
    omega
  · rw [Paced, Nat.mul_succ]
    omega

/-- **One step of a pause.**  It keeps what the pause keeps to, and it uses up one of the steps that
are left. -/
theorem Keeps.step (hmost : needed d ≤ most) (h : v.Keeps first d most) :
    v.step.Keeps first d most ∧
      v.step.toGo most + (if v.isReady then 1 else 0) ≤ v.toGo most := by
  obtain ⟨clock, aborted, stage, slept⟩ := v
  obtain ⟨hstage, hfits, hcount⟩ := h
  -- A round is a look at the flag, a look at the clock, falling asleep and waking up; the measure
  -- counts four steps for each sleep that is left.
  cases stage with
  | up p =>
    cases p with
    | checking deadline =>
      cases aborted with
      | true => exact ⟨⟨rfl, hfits, hcount⟩, Nat.le_add_left _ _⟩
      | false => exact ⟨⟨hstage, hfits, hcount⟩, Nat.le_refl _⟩
    | timing deadline =>
      obtain ⟨hdeadline, hpaced⟩ := hstage
      by_cases hover : deadline ≤ clock
      · have hstep : Nap.step ⟨clock, aborted, .up (.timing deadline), slept⟩ =
            ⟨clock, aborted, .back true, slept⟩ := by
          simp only [Nap.step, Pause.step, if_pos hover]
        rw [hstep]
        refine ⟨⟨?_, hfits, hcount⟩, Nat.le_add_left _ _⟩
        show first + d ≤ clock.nanos
        rw [← hdeadline]
        exact hover
      · have hstep : Nap.step ⟨clock, aborted, .up (.timing deadline), slept⟩ =
            ⟨clock, aborted, .turning ⟨clock, Span.least (deadline - clock) pollInterval⟩
              (.checking deadline), slept⟩ := by
          simp only [Nap.step, Pause.step, if_neg hover]
        obtain ⟨hnew, hneeded, hlater⟩ := hpaced.turning hdeadline hover
        rw [hstep]
        exact ⟨⟨⟨⟨deadline, rfl, hdeadline⟩, hnew, Nat.lt_of_lt_of_le hneeded hmost,
          Nat.le_refl _, hlater⟩, hfits, hcount⟩, Nat.le_refl _⟩
    | _ => exact hstage.elim
  | turning sleep p =>
    obtain ⟨hp, hnew, hless, hasked, hlater⟩ := hstage
    refine ⟨⟨⟨hp, hlater.mono (Nat.add_le_add_right hasked _)⟩, ?_, hless⟩, ?_⟩
    · intro other hother
      rcases List.mem_cons.1 hother with rfl | hmem
      · exact hnew
      · exact hfits other hmem
    · have hless : slept.length < most := hless
      show 4 * (most - (slept.length + 1)) + 3 + 1 ≤ 4 * (most - slept.length)
      omega
  | asleep wake p =>
    obtain ⟨⟨deadline, rfl, hdeadline⟩, hpaced⟩ := hstage
    by_cases hwake : wake ≤ clock.nanos
    · have hstep : Nap.step ⟨clock, aborted, .asleep wake (.checking deadline), slept⟩ =
          ⟨clock, aborted, .up (.checking deadline), slept⟩ := if_pos hwake
      rw [hstep]
      refine ⟨⟨⟨hdeadline, hpaced.mono hwake⟩, hfits, hcount⟩, ?_⟩
      simp only [toGo, Stage.toGo, isReady, hwake, decide_true, if_true, Nat.le_refl]
    · have hstep : Nap.step ⟨clock, aborted, .asleep wake (.checking deadline), slept⟩ =
          ⟨clock, aborted, .asleep wake (.checking deadline), slept⟩ := if_neg hwake
      rw [hstep]
      refine ⟨⟨⟨⟨deadline, rfl, hdeadline⟩, hpaced⟩, hfits, hcount⟩, ?_⟩
      simp only [isReady, hwake, decide_false, Bool.false_eq_true, if_false, Nat.add_zero,
        Nat.le_refl]
  | back full => exact ⟨⟨hstage, hfits, hcount⟩, Nat.le_refl _⟩
  | overflown => exact hstage.elim

/-- Time that passes takes nothing away. -/
theorem Stage.Keeps.passes {stage : Stage} {sleeps : Nat} {now now' : Span} {aborted : Bool}
    (h : stage.Keeps first d most sleeps now aborted) (hle : now ≤ now') :
    stage.Keeps first d most sleeps now' aborted := by
  cases stage with
  | up p =>
    cases p with
    | checking deadline | timing deadline => exact ⟨h.1, h.2.mono hle⟩
    | _ => exact h
  | turning sleep p =>
    obtain ⟨hp, hnew, hless, hasked, hlater⟩ := h
    exact ⟨hp, hnew, hless, Nat.le_trans hasked hle, hlater⟩
  | asleep wake p => exact h
  | back full =>
    cases full with
    | true => exact Nat.le_trans h hle
    | false => exact h
  | overflown => exact h

/-- An abort leaves a nap in pace. -/
theorem Stage.Keeps.abort {stage : Stage} {sleeps : Nat} {now : Span} {aborted : Bool}
    (h : stage.Keeps first d most sleeps now aborted) :
    stage.Keeps first d most sleeps now true := by
  cases stage with
  | up p => cases p <;> exact h
  | back full =>
    cases full with
    | true => exact h
    | false => rfl
  | _ => exact h

/-- Whatever is chosen keeps a nap in pace, and its own steps bring it nearer to its end. -/
theorem Keeps.next (hmost : needed d ≤ most) (h : v.Keeps first d most) (choice : Choice) :
    (v.next choice).Keeps first d most ∧
      (v.next choice).toGo most + (if choice = .step ∧ v.isReady then 1 else 0) ≤ v.toGo most := by
  cases choice with
  | passes now =>
    rw [Nap.next]
    split
    · rename_i hle
      exact ⟨⟨h.stage.passes hle, h.fits, h.count⟩, Nat.le_refl _⟩
    · exact ⟨h, Nat.le_refl _⟩
  | abort => exact ⟨⟨h.stage.abort, h.fits, h.count⟩, Nat.le_refl _⟩
  | step =>
    obtain ⟨hkeeps, hgo⟩ := h.step hmost
    simp only [true_and]
    exact ⟨hkeeps, hgo⟩

/-- So does every run. -/
theorem Keeps.run (hmost : needed d ≤ most) (h : v.Keeps first d most) (choices : List Choice) :
    (v.run choices).Keeps first d most ∧
      (v.run choices).toGo most + v.steps isReady choices ≤ v.toGo most := by
  induction choices generalizing v with
  | nil => exact ⟨h, Nat.le_refl _⟩
  | cons choice choices ih =>
    obtain ⟨hnext, hfirst⟩ := h.next hmost choice
    obtain ⟨hrun, hrest⟩ := ih hnext
    refine ⟨hrun, ?_⟩
    rw [steps]
    show ((v.next choice).run choices).toGo most + _ ≤ _
    omega

/-! ## After an abort -/

/-- A run that is aborted stays so. -/
theorem aborted_next (h : v.aborted = true) (choice : Choice) : (v.next choice).aborted = true := by
  cases choice with
  | passes now =>
    rw [next]
    split <;> exact h
  | abort => rfl
  | step =>
    rw [next, step]
    split
    · split <;> exact h
    · exact h
    · split <;> exact h
    · exact h
    · exact h

/-- Whether a sleep can be begun without another look at the flag. -/
def pending (v : Nap) : Nat :=
  match v.stage with
  | .up (.timing _) | .turning .. => 1
  | _ => 0

/-- At most one sleep is asked for without a look at the flag. -/
theorem pending_le (v : Nap) : v.pending ≤ 1 := by
  rw [pending]
  split <;> decide

/-- After an abort no sleep is asked for that was not pending. -/
theorem Keeps.pending_next (h : v.Keeps first d most) (haborted : v.aborted = true)
    (choice : Choice) :
    (v.next choice).slept.length + (v.next choice).pending ≤ v.slept.length + v.pending := by
  cases choice with
  | passes now =>
    rw [Nap.next]
    split <;> exact Nat.le_refl _
  | abort => exact Nat.le_refl _
  | step =>
    obtain ⟨clock, aborted, stage, slept⟩ := v
    obtain rfl : aborted = true := haborted
    have hstage := h.stage
    -- After the abort only a sleep that was already asked for can still begin.
    cases stage with
    | up p =>
      cases p with
      | checking deadline => exact Nat.le_refl _
      | timing deadline =>
        by_cases hover : deadline ≤ clock
        · simp only [Nap.next, Nap.step, Pause.step, if_pos hover, pending]
          omega
        · simp only [Nap.next, Nap.step, Pause.step, if_neg hover, pending]
          exact Nat.le_refl _
      | _ => exact hstage.elim
    | turning sleep p => exact Nat.le_refl _
    | asleep wake p =>
      obtain ⟨⟨deadline, rfl, -⟩, -⟩ := hstage
      by_cases hwake : wake ≤ clock.nanos
      · simp only [Nap.next, Nap.step, if_pos hwake, pending]
        exact Nat.le_refl _
      · simp only [Nap.next, Nap.step, if_neg hwake]
        exact Nat.le_refl _
    | back full => exact Nat.le_refl _
    | overflown => exact hstage.elim

/-- So no run has more than one more sleep. -/
theorem Keeps.pending_run (hmost : needed d ≤ most) (h : v.Keeps first d most)
    (haborted : v.aborted = true) (choices : List Choice) :
    (v.run choices).slept.length + (v.run choices).pending ≤ v.slept.length + v.pending := by
  induction choices generalizing v with
  | nil => exact Nat.le_refl _
  | cons choice choices ih =>
    exact Nat.le_trans (ih (h.next hmost choice).1 (aborted_next haborted choice))
      (h.pending_next haborted choice)

/-- A nap that is over stays so. -/
theorem back_run {full : Bool} (h : v.stage = .back full) (choices : List Choice) :
    (v.run choices).stage = .back full := by
  induction choices generalizing v with
  | nil => exact h
  | cons choice choices ih =>
    refine ih ?_
    cases choice with
    | passes now =>
      rw [next]
      split <;> exact h
    | abort => exact h
    | step =>
      rw [next, step, h]
      exact h

/-- No look at the flag is passed after an abort. -/
theorem step_of_looks (haborted : v.aborted = true) (hlooks : v.looks = true) :
    v.step.stage = .back false := by
  obtain ⟨clock, aborted, stage, slept⟩ := v
  obtain rfl : aborted = true := haborted
  cases stage with
  | up p =>
    cases p with
    | glance | checking deadline | whole length => rfl
    | _ => cases hlooks
  | _ => cases hlooks

/-- Who comes back from a pause as if nothing had happened has not looked at the flag since the
abort. -/
theorem steps_looks (haborted : v.aborted = true) (choices : List Choice)
    (h : (v.run choices).stage = .back true) : v.steps looks choices = 0 := by
  induction choices generalizing v with
  | nil => rfl
  | cons choice choices ih =>
    rw [steps, ih (aborted_next haborted choice) h, Nat.add_zero, if_neg]
    rintro ⟨rfl, hlooks⟩
    have hback := back_run (step_of_looks haborted hlooks) choices
    have hboth : Stage.back true = .back false := h.symm.trans hback
    cases hboth

/-! ## Whole pauses -/

/-- Its first step puts a nap in pace, unless its end is out of range. -/
theorem keeps_start {now length : Span} (aborted : Bool) (most : Nat)
    (hfits : now.nanos + length.nanos ≤ maxNanos) :
    ((start now aborted (Pause.start .polled length)).next .step).Keeps now.nanos length.nanos
      most := by
  have hadd : now.add? length = some ⟨now.nanos + length.nanos, hfits⟩ := dif_pos hfits
  have hstep : (start now aborted (Pause.start .polled length)).next .step =
      start now aborted (.checking ⟨now.nanos + length.nanos, hfits⟩) := by
    simp only [start, Pause.start, next, step, Pause.step, hadd]
  rw [hstep]
  exact ⟨⟨rfl, Or.inl (Nat.le_refl _)⟩, fun sleep hsleep => (by cases hsleep), Nat.zero_le _⟩

/-- **A pause made of short sleeps is exact and prompt.**  Let it begin when the clock shows `now`,
and let its end lie within the range of spans.  Whatever else moves the clock forward and whenever
the run is aborted,

* it begins no more sleeps than `pollInterval` fits into its length, rounded up, and each of them is
  positive, at most `pollInterval` and no longer than the time that was left;
* it comes back after its full length only when the clock shows that the length has passed, and
  early only if the run is aborted;
* once the run is aborted, it begins at most one more sleep, and it comes back after its full length
  only if it does not look at the flag any more;
* it makes a bounded number of steps, and unless it is back, it can make one or is in a sleep whose
  time has not passed. -/
theorem ends_on_time (now length : Span) (aborted : Bool)
    (hfits : now.nanos + length.nanos ≤ maxNanos) (choices : List Choice) :
    let v₀ := start now aborted (Pause.start .polled length)
    let v := v₀.run (.step :: choices)
    let most := length.nanos ⌈/⌉ pollInterval.nanos
    (v.slept.length ≤ most ∧ ∀ sleep ∈ v.slept, 0 < sleep.length.nanos ∧
      sleep.length ≤ pollInterval ∧
      sleep.length.nanos ≤ now.nanos + length.nanos - sleep.asked.nanos) ∧
    ((v.stage = .back true → now.nanos + length.nanos ≤ v.clock.nanos) ∧
      (v.stage = .back false → v.aborted = true)) ∧
    (v.aborted = true → ∀ more, (v.run more).slept.length ≤ v.slept.length + 1 ∧
      ((v.run more).stage = .back true → v.steps looks more = 0)) ∧
    (v₀.steps isReady (.step :: choices) ≤ 4 * most + 3 ∧
      (v.isReady = true ∨ (∃ wake p, v.stage = .asleep wake p ∧ v.clock.nanos < wake) ∨
        ∃ full, v.stage = .back full)) := by
  intro v₀ v most
  have hfirst := keeps_start aborted (needed length.nanos) hfits
  -- One invariant and one measure, carried along the whole run.
  obtain ⟨hkeeps, hgo⟩ := hfirst.run (Nat.le_refl _) choices
  have hv : v.Keeps now.nanos length.nanos (needed length.nanos) := hkeeps
  refine ⟨⟨hv.count, fun sleep hsleep => ?_⟩, ⟨fun hback => ?_, fun hback => ?_⟩,
    fun haborted more => ⟨?_, steps_looks haborted more⟩, ?_, ?_⟩
  · obtain ⟨hpos, hle, hrest⟩ := hv.fits sleep hsleep
    exact ⟨hpos, hle, by omega⟩
  · have hstage := hv.stage
    rw [hback] at hstage
    exact hstage
  · have hstage := hv.stage
    rw [hback] at hstage
    exact hstage
  · have hpending := hv.pending_run (Nat.le_refl _) haborted more
    have hone := v.pending_le
    omega
  -- The first step opens the pause; from then on the measure bounds the steps.
  · have hleft : (v₀.next .step).toGo (needed length.nanos) ≤ 4 * most + 2 := by
      have hadd : now.add? length = some ⟨now.nanos + length.nanos, hfits⟩ := dif_pos hfits
      simp only [v₀, start, Pause.start, next, step, Pause.step, hadd, toGo, Stage.toGo]
      exact Nat.le_refl _
    show 1 + (v₀.next .step).steps isReady choices ≤ 4 * most + 3
    replace hgo : _ + (v₀.next .step).steps isReady choices ≤ (v₀.next .step).toGo _ := hgo
    omega
  · have hstage := hv.stage
    rw [isReady]
    -- Who pauses can make a step, sleeps, or is back: an overflow is excluded by `hfits`.
    cases hplace : v.stage with
    | up p | turning sleep p => exact Or.inl rfl
    | asleep wake p =>
      by_cases hwake : wake ≤ v.clock.nanos
      · exact Or.inl (decide_eq_true hwake)
      · exact Or.inr (Or.inl ⟨wake, p, rfl, Nat.lt_of_not_le hwake⟩)
    | back full => exact Or.inr (Or.inr ⟨full, rfl⟩)
    | overflown =>
      rw [hplace] at hstage
      exact hstage.elim

/-- A pause of 50 milliseconds needs three sleeps; the second one lasts for 25 milliseconds, and the
run is aborted just before the pause reads the clock for the last time. -/
theorem ends_on_time_fifty :
    let length := Span.millis 50
    let nap := [Choice.step, .step, .step]
    let choices := nap ++ [.passes (.millis 20), .step] ++ nap ++ [.passes (.millis 45), .step] ++
      nap ++ [.passes (.millis 60), .step, .step, .abort, .step]
    let v := (start .zero false (Pause.start .polled length)).run (.step :: choices)
    Span.zero.nanos + length.nanos ≤ maxNanos ∧ v.slept.map Sleep.length = [.millis 5, .millis 20,
      .millis 20] ∧ v.stage = .back true ∧ Span.zero.nanos + length.nanos ≤ v.clock.nanos :=
  ⟨by decide, by decide, by decide, (ends_on_time .zero (.millis 50) false (by decide) _).2.1.1
    (by decide)⟩

end LoadReplay.Nap
