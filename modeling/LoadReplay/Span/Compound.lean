import LoadReplay.Number.Whole
import LoadReplay.Span.Text
import LoadReplay.Text.Blank

/-!
# Compound durations

Durations such as `1h 30m` or `2.5s`: one or more amounts, each a number followed by a unit.  Blanks
may stand between the digits of a number, between a number and its unit, and between amounts.

The reader takes one character at a time (`Reading.step`), so it is a fold over the text.  Error
positions are byte offsets; `Reading.mark` is the end of the last character that the current part
accepted, which is where a character that does not fit is reported.

All arithmetic is in 64-bit words, and an amount that does not fit, or a fraction that is not a
whole number of the unit's parts, is refused.  One sum is not checked: when the nanoseconds add up
to exactly one second, the carry may leave the range of spans, and reading stops with
`Fault.overflow`.
-/

namespace LoadReplay.Span.Compound

/-- Why a text is not a compound duration. -/
inductive Error where
  | empty
  | numberExpected (offset : Nat)
  | invalidCharacter (offset : Nat)
  | unknownUnit (unit : String) (amount : Nat)
  | numberOverflow
  deriving Repr, DecidableEq

/-- The text of an error. -/
def Error.message : Error → String
  | .empty => "value was empty"
  | .numberExpected offset => s!"expected number at {offset}"
  | .invalidCharacter offset => s!"invalid character at {offset}"
  | .unknownUnit unit amount =>
    if unit.isEmpty then s!"time unit needed, for example {amount}sec or {amount}ms"
    else s!"unknown time unit \"{unit}\", supported units: ns, us/µs, ms, sec, min, hours, days, "
      ++ "weeks, months, years (and few variations)"
  | .numberOverflow =>
    "number is too large or cannot be represented without a lack of precision "
      ++ "(values below 1ns are not supported)"

/-- The units of time. -/
inductive Unit where
  | nanosecond | microsecond | millisecond | second | minute | hour | day | week | month | year
  deriving Repr, DecidableEq

/-- The unit with the given spelling. -/
def Unit.ofText? (s : String) : Option Unit :=
  if s ∈ ["nanos", "nsec", "ns"] then some .nanosecond
  else if s ∈ ["usec", "us", "µs"] then some .microsecond
  else if s ∈ ["millis", "msec", "ms"] then some .millisecond
  else if s ∈ ["seconds", "second", "secs", "sec", "s"] then some .second
  else if s ∈ ["minutes", "minute", "min", "mins", "m"] then some .minute
  else if s ∈ ["hours", "hour", "hr", "hrs", "h"] then some .hour
  else if s ∈ ["days", "day", "d"] then some .day
  else if s ∈ ["weeks", "week", "wk", "wks", "w"] then some .week
  else if s ∈ ["months", "month", "M"] then some .month
  else if s ∈ ["years", "year", "yr", "yrs", "y"] then some .year
  else none

/-- What one of the unit is in the measure that its whole amounts are counted in: nanoseconds below
the second, seconds from there on.  A month is a twelfth of a year of 365.25 days, to the second. -/
def Unit.whole : Unit → Bool × Nat
  | .nanosecond => (false, 1)
  | .microsecond => (false, 1_000)
  | .millisecond => (false, 1_000_000)
  | .second => (true, 1)
  | .minute => (true, 60)
  | .hour => (true, 3600)
  | .day => (true, 86400)
  | .week => (true, 86400 * 7)
  | .month => (true, 2630016)
  | .year => (true, 31557600)

/-- The measure that its fractions are counted in: nanoseconds up to the minute, seconds from the
hour on.  A nanosecond has no fractions. -/
def Unit.fractional : Unit → Option (Bool × Nat)
  | .nanosecond => none
  | .microsecond => some (false, 1_000)
  | .millisecond => some (false, 1_000_000)
  | .second => some (false, 1_000_000_000)
  | .minute => some (false, 60 * 1_000_000_000)
  | u => some u.whole

/-- A word that fits in 64 bits. -/
def word (n : Nat) : Except (Fault Error) Nat :=
  if n < Nat.pow 2 64 then .ok n else .error (.error .numberOverflow)

/-- Adds whole seconds and nanoseconds to a span.  Only more than a full second of nanoseconds is
carried with a check. -/
def addAmount (total : Span) (seconds nanos : Nat) : Except (Fault Error) Span := do
  let nanos ← word (total.subNanos + nanos)
  -- A full second of nanoseconds is left to `ofParts?`.  There, leaving the range is no error of
  -- the text.
  let (seconds, nanos) ←
    if 1_000_000_000 < nanos then
      (word (seconds + nanos / 1_000_000_000)).map fun carried => (carried, nanos % 1_000_000_000)
    else .ok (seconds, nanos)
  let seconds ← word (total.seconds + seconds)
  Fault.ofOption (Span.ofParts? seconds nanos)

/-- A quantity of some measure added to a span. -/
def addMeasure (total : Span) (inSeconds : Bool) (n : Nat) : Except (Fault Error) Span :=
  if inSeconds then addAmount total n 0 else addAmount total 0 n

/-- The decimals of an amount: `numerator / denominator`, the denominator a power of ten. -/
structure Decimals where
  numerator : Nat
  denominator : Nat
  deriving Repr

/-- Adds `amount` units and a fraction of one to a span. -/
def addUnits (total : Span) (amount : Nat) (decimals : Option Decimals) (spelling : String) :
    Except (Fault Error) Span := do
  let some unit := Unit.ofText? spelling
    | .error (.error (.unknownUnit spelling amount))
  let (inSeconds, factor) := unit.whole
  let total ← addMeasure total inSeconds (← word (amount * factor))
  match decimals with
  | none => return total
  | some d =>
    let some (inSeconds, factor) := unit.fractional
      | .error (.error .numberOverflow)
    let scaled ← word (d.numerator * factor)
    if scaled % d.denominator = 0 then addMeasure total inSeconds (scaled / d.denominator)
    else .error (.error .numberOverflow)

/-- Which part of an amount the reader is in. -/
inductive Part where
  /-- Before the first digit of a number; the search began at `start`. -/
  | seeking (start : Nat)
  | whole (amount : Nat)
  | decimals (amount : Nat) (read : Decimals)
  /-- In a unit; its letters so far, last first. -/
  | unit (amount : Nat) (decimals : Option Decimals) (letters : List Char)
  deriving Repr

/-- The state of the reader between two characters. -/
structure Reading where
  /-- Bytes read so far. -/
  offset : Nat
  /-- Where a character that does not fit is reported. -/
  mark : Nat
  /-- Whether an amount has begun. -/
  begun : Bool
  total : Span
  part : Part

/-- Before the first character. -/
def Reading.start : Reading :=
  { offset := 0, mark := 0, begun := false, total := Span.zero, part := .seeking 0 }

/-- The letters that units are made of. -/
def isUnitLetter (c : Char) : Bool :=
  ('a' ≤ c && c ≤ 'z') || ('A' ≤ c && c ≤ 'Z') || c == 'µ'

/-- The spelling of a unit from its letters, last first. -/
def spelling (letters : List Char) : String := String.ofList letters.reverse

/-- One more digit of the decimals. -/
def Decimals.push (d : Decimals) (digit : Nat) : Except (Fault Error) Decimals := do
  let denominator ← word (d.denominator * 10)
  let numerator ← word (d.numerator * 10 + digit)
  return { numerator, denominator }

/-- Takes one character. -/
def Reading.step (r : Reading) (c : Char) : Except (Fault Error) Reading := do
  let offset := r.offset + c.utf8Size
  let accepted (part : Part) : Reading := { r with offset, mark := offset, begun := true, part }
  let digit := Number.digitValue? 10 c
  match r.part, digit with
  | .seeking _, some d => return accepted (.whole d)
  | .seeking start, none =>
    if Text.isBlank c then return { r with offset }
    else .error (.error (.numberExpected start))
  | .whole n, some d => return accepted (.whole (← word (n * 10 + d)))
  | .whole n, none =>
    if Text.isBlank c then return accepted (.whole n)
    else if isUnitLetter c then return accepted (.unit n none [c])
    -- The mark stays before a point: until a digit follows, it is the point that does not fit.
    else if c = '.' then return { r with offset, part := .decimals n ⟨0, 1⟩ }
    else .error (.error (.invalidCharacter r.mark))
  | .decimals n read, some d => return accepted (.decimals n (← read.push d))
  | .decimals n read, none =>
    if Text.isBlank c then return accepted (.decimals n read)
    else if isUnitLetter c ∧ read.denominator ≠ 1 then return accepted (.unit n (some read) [c])
    else .error (.error (.invalidCharacter r.mark))
  | .unit n read letters, some d =>
    let total ← addUnits r.total n read (spelling letters)
    return { accepted (.whole d) with total }
  | .unit n read letters, none =>
    if Text.isBlank c then
      let total ← addUnits r.total n read (spelling letters)
      return { accepted (.seeking offset) with total }
    else if isUnitLetter c then return accepted (.unit n read (c :: letters))
    else .error (.error (.invalidCharacter r.mark))

/-- The span read, at the end of the text. -/
def Reading.finish (r : Reading) : Except (Fault Error) Span :=
  match r.part with
  | .seeking _ => if r.begun then .ok r.total else .error (.error .empty)
  | .whole n => addUnits r.total n none ""
  | .decimals n read =>
    if read.denominator = 1 then .error (.error (.invalidCharacter r.mark))
    else addUnits r.total n (some read) ""
  | .unit n read letters => addUnits r.total n read (spelling letters)

/-- Reads a compound duration. -/
def read (s : List Char) : Except (Fault Error) Span := do
  (← s.foldlM Reading.step Reading.start).finish

end LoadReplay.Span.Compound
