import LoadReplay.Clock.Shared
import Mathlib

/-!
# Clocks that run backwards

A manual clock counts in a 64-bit word, and nothing keeps the word from overflowing.  So it shows
how far it was moved in all, modulo `2 ^ 64` (`Counts`), and whoever reads it sees it go back in
just those steps that take the distance past a multiple of `2 ^ 64`.

Main statement: `readings_ascend_iff`.
-/

namespace LoadReplay

theorem Span.le_trans {a b c : Span} (hab : a ≤ b) (hbc : b ≤ c) : a ≤ c := Nat.le_trans hab hbc

instance : IsTrans Span (· ≤ ·) := ⟨fun _ _ _ => Span.le_trans⟩

namespace SharedClock

variable {v : SharedClock}

/-! ## Calls -/

/-- A call that nobody comes between does what the clock on its own does. -/
theorem run_alone (v : SharedClock) (length : Span) :
    (v.run [.advance length, .step v.calls.length]).clock = v.clock.advance length ∧
      (v.run [.sleep length, .step v.calls.length, .step v.calls.length]).clock =
        v.clock.sleep length ∧
      (v.run [.sleepUnless length, .step v.calls.length, .step v.calls.length,
        .step v.calls.length]).clock = (v.clock.sleepUnless v.aborted length).2 := by
  refine ⟨?_, ?_, ?_⟩
  · simp [run, next, call, step]
  · simp [run, next, call, step, ManualClock.sleep]
  · cases haborted : v.aborted <;>
      simp [run, next, call, step, haborted, ManualClock.sleepUnless, ManualClock.sleep]

/-- A step leaves the clock where it is, or moves it. -/
theorem next_cases (v : SharedClock) (choice : Choice) :
    (v.next choice).clock.now = v.clock.now ∧ (v.next choice).moves = v.moves ∨
      ∃ length, (v.next choice).clock = v.clock.advance length ∧
        (v.next choice).moves = length :: v.moves := by
  cases choice with
  | step k =>
    rw [next, step]
    split
    case h_3 length _ => exact Or.inr ⟨length, rfl, rfl⟩
    all_goals exact Or.inl ⟨rfl, rfl⟩
  | _ => exact Or.inl ⟨rfl, rfl⟩

/-! ## The distance -/

/-- A move adds its counted length to the distance. -/
theorem distance_of_moves {w : SharedClock} {length : Span} (h : w.moves = length :: v.moves) :
    w.distance = (ManualClock.counted length).toNat + v.distance := by
  rw [distance, h, List.foldr_cons, distance]

/-- Whether the clock shows how far it was moved, as far as it can count. -/
def Counts (v : SharedClock) : Prop := v.clock.now.nanos = v.distance % 2 ^ 64

/-- What a step does to the distance, and to what the clock shows. -/
theorem Counts.next (h : v.Counts) (choice : Choice) :
    (v.next choice).Counts ∧ v.distance ≤ (v.next choice).distance ∧
      (v.next choice).distance < v.distance + 2 ^ 64 := by
  rcases v.next_cases choice with ⟨hnow, hmoves⟩ | ⟨length, hclock, hmoves⟩
  · have hdistance : (v.next choice).distance = v.distance := by rw [distance, hmoves, distance]
    rw [Counts, hnow, hdistance]
    exact ⟨h, Nat.le_refl _, by omega⟩
  · have hdistance := distance_of_moves hmoves
    have hlt := (ManualClock.counted length).toNat_lt
    have hnow : (v.next choice).clock.now.nanos =
        (v.clock.now.nanos + (ManualClock.counted length).toNat) % 2 ^ 64 := by
      rw [hclock]
      exact UInt64.toNat_add _ _
    refine ⟨?_, by omega, by omega⟩
    rw [Counts] at h ⊢
    omega

/-- The clock shows the distance modulo the word size in every run. -/
theorem counts_run (choices : List Choice) : (start.run choices).Counts := by
  suffices hrun : ∀ v : SharedClock, v.Counts → (v.run choices).Counts from hrun start rfl
  induction choices with
  | nil => exact fun _ h => h
  | cons choice choices ih => exact fun v h => ih _ (h.next choice).1

/-- The clock goes back in a step exactly if the distance passes a multiple of `2 ^ 64`. -/
theorem Counts.now_lt_iff (h : v.Counts) (choice : Choice) :
    (v.next choice).clock.now < v.clock.now ↔
      v.distance / 2 ^ 64 < (v.next choice).distance / 2 ^ 64 := by
  obtain ⟨hnext, hle, hlt⟩ := h.next choice
  rw [Counts] at h hnext
  rw [Span.lt_def, h, hnext]
  omega

/-- The distance never becomes shorter. -/
theorem Counts.distance_le (h : v.Counts) (choices : List Choice) :
    v.distance ≤ (v.run choices).distance := by
  induction choices generalizing v with
  | nil => exact Nat.le_refl _
  | cons choice choices ih =>
    obtain ⟨hnext, hle, -⟩ := h.next choice
    exact Nat.le_trans hle (ih hnext)

/-- A run shows no moment before an earlier one exactly if its distance passes no multiple of
`2 ^ 64`. -/
theorem Counts.readings_ascend_iff_div (h : v.Counts) (choices : List Choice) :
    (v.readings choices).IsChain (· ≤ ·) ↔
      v.distance / 2 ^ 64 = (v.run choices).distance / 2 ^ 64 := by
  induction choices generalizing v with
  | nil => simp [readings, run]
  | cons choice choices ih =>
    obtain ⟨hnext, hle, -⟩ := h.next choice
    have hrest := hnext.distance_le choices
    have hback := h.now_lt_iff choice
    have hhead : ∃ more, (v.next choice).readings choices = (v.next choice).clock.now :: more := by
      cases choices <;> exact ⟨_, rfl⟩
    obtain ⟨more, hmore⟩ := hhead
    have hih := ih hnext
    rw [hmore] at hih
    rw [readings, hmore, List.isChain_cons_cons, hih]
    have hmono : v.distance / 2 ^ 64 ≤ (v.next choice).distance / 2 ^ 64 :=
      Nat.div_le_div_right hle
    have hmono' := Nat.div_le_div_right (c := 2 ^ 64) hrest
    show v.clock.now ≤ (v.next choice).clock.now ∧ _ ↔
      _ = ((v.next choice).run choices).distance / _
    rw [Span.le_def]
    rw [Span.lt_def] at hback
    omega

/-- **When a manual clock runs backwards.**  Let any number of threads advance the clock, sleep on
it and sleep on it unless the run is aborted, in any order of their steps.  At every moment the
clock shows how far it was moved in all, modulo `2 ^ 64` nanoseconds, where a length counts for at
most `2 ^ 64 - 1`.  So a step makes it go back exactly if the distance passes a multiple of `2 ^ 64`
in that step, and it never shows a moment before an earlier one exactly if the whole distance is
below `2 ^ 64`. -/
theorem readings_ascend_iff (choices : List Choice) :
    let v := start.run choices
    v.clock.now.nanos = v.distance % 2 ^ 64 ∧
    (∀ choice, (v.next choice).clock.now < v.clock.now ↔
      v.distance / 2 ^ 64 < (v.next choice).distance / 2 ^ 64) ∧
    ((start.readings choices).Pairwise (· ≤ ·) ↔ v.distance < 2 ^ 64) := by
  intro v
  have h : v.Counts := counts_run choices
  have hstart : start.Counts := rfl
  have hzero : start.distance = 0 := rfl
  refine ⟨h, h.now_lt_iff, ?_⟩
  rw [← List.isChain_iff_pairwise, hstart.readings_ascend_iff_div, hzero]
  show 0 / 2 ^ 64 = v.distance / 2 ^ 64 ↔ _
  omega

/-- One thread advances the clock by a nanosecond, and another by all that the word can count,
between the two steps of a sleep. -/
def overrun : List Choice :=
  [.sleep (.millis 0), .step 0, .advance (.ofWord 1), .step 1,
    .advance (.ofWord 0xffffffffffffffff), .step 2, .step 0]

/-- The distance reaches the word size, and the clock shows zero again. -/
theorem readings_ascend_iff_overrun :
    (start.run overrun).distance = 2 ^ 64 ∧
      (start.readings overrun).map (·.nanos) = [0, 0, 0, 0, 1, 1, 0, 0] ∧
      ¬ (start.readings overrun).Pairwise (· ≤ ·) := by
  have hdistance : (start.run overrun).distance = 2 ^ 64 := by decide
  refine ⟨hdistance, by decide, fun hascends => ?_⟩
  have hlt := (readings_ascend_iff overrun).2.2.1 hascends
  rw [hdistance] at hlt
  exact Nat.lt_irrefl _ hlt

end SharedClock

end LoadReplay
