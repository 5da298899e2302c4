import LoadReplay.Span.Basic

/-!
# Pauses

A pause ends early when the run is aborted.  On a clock that cannot be interrupted it is made of
short sleeps, with a look at the abort flag before each of them; `Pause.step` is one look at the
flag or at the clock.
-/

namespace LoadReplay

/-- The longest sleep without a look at the abort flag. -/
def pollInterval : Span := .millis 20

/-- How a clock is waited for. -/
inductive Waiting where
  /-- In sleeps of at most `pollInterval`. -/
  | polled
  /-- In one sleep, after one look at the abort flag. -/
  | whole
  deriving Repr, DecidableEq

/-- A pause in progress. -/
inductive Pause where
  /-- Of no length: only the flag is looked at. -/
  | glance
  /-- About to work out the deadline. -/
  | opening (length : Span)
  /-- About to look at the flag. -/
  | checking (deadline : Span)
  /-- About to look at the clock. -/
  | timing (deadline : Span)
  /-- About to look at the flag and to sleep in one go. -/
  | whole (length : Span)
  /-- Slept to the end. -/
  | over
  deriving DecidableEq

namespace Pause

/-- What follows a step of a pause. -/
inductive Next where
  | goesOn (p : Pause)
  | sleeps (length : Span) (p : Pause)
  /-- The pause is over; `full` says whether it had its full length. -/
  | ends (full : Bool)
  /-- The deadline lies beyond all spans. -/
  | overflows
  deriving DecidableEq

/-- A pause of a length. -/
def start (w : Waiting) (length : Span) : Pause :=
  match w with
  | .polled => .opening length
  | .whole => .whole length

/-- A pause of a length that may be zero; then nothing is waited for. -/
def startAny (w : Waiting) (length : Span) : Pause :=
  if length.isZero then .glance else start w length

/-- One step of a pause, from what the clock and the abort flag say. -/
def step (now : Span) (aborted : Bool) : Pause → Next
  | .glance => .ends (!aborted)
  | .opening length =>
    match now.add? length with
    | none => .overflows
    | some deadline => .goesOn (.checking deadline)
  | .checking deadline => if aborted then .ends false else .goesOn (.timing deadline)
  | .timing deadline =>
    if deadline ≤ now then .ends true
    else .sleeps (Span.least (deadline - now) pollInterval) (.checking deadline)
  | .whole length => if aborted then .ends false else .sleeps length .over
  | .over => .ends true

/-- A pause overflows only when its deadline is worked out, and lies beyond all spans. -/
theorem opening_of_overflows {p : Pause} {now : Span} {aborted : Bool}
    (h : p.step now aborted = .overflows) :
    ∃ length, p = .opening length ∧ now.add? length = none := by
  cases p with
  | opening length =>
    cases hadd : now.add? length with
    | none => exact ⟨length, rfl, hadd⟩
    | some deadline =>
      rw [step, hadd] at h
      cases h
  | checking deadline | timing deadline | whole length =>
    rw [step] at h
    split at h
    · cases h
    · cases h
  | _ => cases h

/-- The deadline of a pause is worked out once, at its beginning. -/
theorem ne_opening_of_step {p p' : Pause} {now : Span} {aborted : Bool} (length : Span)
    (h : p.step now aborted = .goesOn p' ∨ ∃ d, p.step now aborted = .sleeps d p') :
    p' ≠ .opening length := by
  rintro rfl
  cases p with
  | opening length' =>
    cases hadd : now.add? length' with
    | none =>
      rw [step, hadd] at h
      rcases h with h | ⟨d, h⟩ <;> cases h
    | some deadline =>
      rw [step, hadd] at h
      rcases h with h | ⟨d, h⟩ <;> cases h
  | checking deadline | timing deadline | whole length' =>
    rw [step] at h
    split at h
    · rcases h with h | ⟨d, h⟩ <;> cases h
    · rcases h with h | ⟨d, h⟩ <;> cases h
  | _ => rcases h with h | ⟨d, h⟩ <;> cases h

/-- Whether the next step looks at the clock. -/
def readsClock : Pause → Bool
  | .opening _ | .timing _ => true
  | _ => false

end Pause

end LoadReplay
