import LoadReplay.Number.Reader
import LoadReplay.Span.Compound

/-!
# Durations in text

A bare number, which may have decimals, is a number of seconds; anything else is a compound
duration.  Blanks around the text do not count.
-/

namespace LoadReplay.Span

/-- Why a text is not a duration. -/
inductive ReadError where
  | empty
  | invalid (text : String)
  | malformed (text : String) (cause : Compound.Error)
  deriving Repr, DecidableEq

/-- The text of an error. -/
def ReadError.message : ReadError → String
  | .empty => "Empty duration"
  | .invalid text => s!"Invalid duration [{text}], expected a non-negative number of seconds"
  | .malformed text cause =>
    s!"Invalid duration [{text}], expected values like 500ms, 30s, 2m or 1h30m: " ++ cause.message

/-- Reads a duration without blanks around it. -/
def readTrimmed (s : List Char) : Except (Fault ReadError) Span :=
  if s.isEmpty then .error (.error .empty)
  else
    match Number.readNumber s with
    | some x =>
      match ofSeconds? x with
      | some a => .ok a
      | none => .error (.error (.invalid (String.ofList s)))
    | none =>
      match Compound.read s with
      | .ok a => .ok a
      | .error f => .error (f.map (.malformed (String.ofList s)))

/-- Reads a duration. -/
def read (s : String) : Except (Fault ReadError) Span := readTrimmed (Text.trim s.toList)

end LoadReplay.Span
