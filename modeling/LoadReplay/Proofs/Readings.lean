import LoadReplay.Proofs.Befalls
import LoadReplay.Proofs.UsersLeft
import Mathlib.Data.List.Induction

/-!
# What the clock showed

The log of a scene remembers what the clock showed at each step.  Statements about durations are
about clocks that never go back (`Scene.Forward`); what the clock showed at one step then bounds
from below what it shows at all later ones, whoever makes them.
-/

namespace LoadReplay

/-- What the clock showed at a step. -/
def Event.now : Event → Span
  | .controller now _ => now
  | .user _ now _ => now

namespace Scene

variable {w : Waiting} {s : Scene}

/-- What the clock showed at the steps that were made, the first one first. -/
def readings (s : Scene) : List Span := s.log.map Event.now

/-- Whether the clock never went back. -/
def Forward (s : Scene) : Prop := s.readings.Pairwise (· ≤ ·)

instance (s : Scene) : Decidable s.Forward := inferInstanceAs (Decidable (List.Pairwise _ _))

/-- A run that goes on for one more choice. -/
theorem run_concat (s : Scene) (choices : List Choice) (choice : Choice) :
    s.run w (choices ++ [choice]) = (s.run w choices).next w choice :=
  List.foldl_concat _ _ _ _

/-- A run that goes on for more choices. -/
theorem run_append (s : Scene) (a b : List Choice) : s.run w (a ++ b) = (s.run w a).run w b :=
  List.foldl_append

/-- What happens adds a step to the log or leaves the log as it is. -/
theorem log_next (s : Scene) (choice : Choice) :
    (s.next w choice).log = s.log ∨ ∃ event, (s.next w choice).log = s.log ++ [event] := by
  cases s.next_turn w choice with
  | controller now hc =>
    rw [hc]
    exact .inr ⟨_, rfl⟩
  | refuse hr | leave _ _ hr =>
    rw [hr]
    exact .inl rfl
  | users hu =>
    rcases hu.log with hlog | ⟨i, now, effect, hlog⟩
    · exact .inl hlog
    · exact .inr ⟨_, hlog⟩

/-- A step of the controller reads the clock once. -/
theorem readings_stepController (s : Scene) (now : Span) :
    (s.stepController w now).readings = s.readings ++ [now] := by
  rw [readings, stepController, List.map_append]
  rfl

/-- A clock that never went back had not gone back before. -/
theorem Forward.of_next {choice : Choice} (h : (s.next w choice).Forward) : s.Forward := by
  rw [Forward, readings] at h ⊢
  rcases log_next (w := w) s choice with hlog | ⟨event, hlog⟩
  · rwa [hlog] at h
  · rw [hlog, List.map_append] at h
    exact (List.pairwise_append.1 h).1

/-- What the clock shows at a step of the controller is no less than what it showed before. -/
theorem Forward.le_of_stepController {now r : Span} (h : (s.stepController w now).Forward)
    (hr : r ∈ s.readings) : r ≤ now := by
  rw [Forward, readings_stepController] at h
  exact (List.pairwise_append.1 h).2.2 r hr now (List.mem_singleton_self now)

/-! ## What does not come undone -/

/-- A run that is not aborted was not aborted before. -/
theorem not_aborted_of_next {choice : Choice} (h : (s.next w choice).aborted = false) :
    s.aborted = false := by
  cases habort : s.aborted with
  | false => rfl
  | true =>
    rw [aborted_next habort choice] at h
    cases h

/-- A virtual user that was ended by an error stays so. -/
theorem SomeCrashed.next (h : s.SomeCrashed) (choice : Choice) :
    (s.next w choice).SomeCrashed := by
  obtain ⟨i, t, ht, hphase⟩ := h
  have hover : t.user.isOver = true := by rw [User.isOver, hphase]
  cases s.next_turn w choice with
  | controller now hc =>
    rw [hc]
    obtain ⟨t', ht', huser⟩ := (s.controller.steps w now s.aborted).change.user ht
    exact ⟨i, t', ht', by rw [huser, hphase]⟩
  | refuse hr =>
    rw [hr]
    refine ⟨i, t, ?_, hphase⟩
    rw [crew_modifyCrew]
    rcases s.crew.refuse_cases with hr | ⟨u, -, hr⟩
    · rwa [hr]
    · rwa [hr]
  | leave j _ hl =>
    rw [hl]
    refine ⟨i, _, Crew.thread_leave.2 ⟨t, ht, rfl⟩, ?_⟩
    split
    · rw [Thread.user_leave, hphase]
    · exact hphase
  | users hu => exact ⟨i, t, hu.ends i t ht hover, hphase⟩

/-- A user that was ended by an error stays so in all that follows. -/
theorem SomeCrashed.run (h : s.SomeCrashed) (choices : List Choice) :
    (s.run w choices).SomeCrashed :=
  run_induction w (p := SomeCrashed) h (fun _ choice hs => hs.next choice) choices

end Scene

end LoadReplay
