import LoadReplay.Span.Basic

/-!
# Spans as text

A span is written in the largest of the units `s`, `ms`, `µs` and `ns` in which it is at least one,
as an exact decimal without trailing zeros: `1.5s`, `250ms`, `0ns`.
-/

namespace LoadReplay.Span

/-- The digits of a fraction `part / 10 ^ places` without trailing zeros, with a point in front
unless none are left. -/
def fractionText (part places : Nat) : String :=
  let digits := Nat.toDigits 10 part
  let padded := List.replicate (places - digits.length) '0' ++ digits
  let kept := (padded.reverse.dropWhile (· == '0')).reverse
  if kept.isEmpty then "" else "." ++ String.ofList kept

/-- A quantity of `10 ^ places` parts to the unit. -/
def inUnit (nanos places : Nat) (unit : String) : String :=
  toString (nanos / Nat.pow 10 places) ++ fractionText (nanos % Nat.pow 10 places) places ++ unit

/-- The text of a span. -/
def text (a : Span) : String :=
  if 1_000_000_000 ≤ a.nanos then inUnit a.nanos 9 "s"
  else if 1_000_000 ≤ a.nanos then inUnit a.nanos 6 "ms"
  else if 1_000 ≤ a.nanos then inUnit a.nanos 3 "µs"
  else inUnit a.nanos 0 "ns"

instance : Repr Span := ⟨fun a _ => a.text⟩

end LoadReplay.Span
