import LoadReplay.Document.Tree
import LoadReplay.Toml.Text

/-!
# Numbers and dates of TOML

Whole numbers take 64 bits with a sign.  An underscore may stand between two digits.  A decimal that
is too large for binary64 is refused.  Dates and times are checked and kept as text.
-/

namespace LoadReplay.Toml

open Document (Tree Scalar)

/-- Reads digits with single underscores between them. -/
def scanDigits (isDigit : Char → Bool) : Scan (List Char)
  | [] => none
  | [c] => if isDigit c then some ([c], []) else none
  | c :: d :: rest =>
    if !isDigit c then none
    else if d = '_' then (scanDigits isDigit rest).map fun p => (c :: p.1, p.2)
    else if isDigit d then (scanDigits isDigit (d :: rest)).map fun p => (c :: p.1, p.2)
    else some ([c], d :: rest)

/-- Reads a sign. -/
def scanSign : List Char → List Char × List Char
  | '+' :: rest => (['+'], rest)
  | '-' :: rest => (['-'], rest)
  | s => ([], s)

/-- Reads decimal digits that do not begin with a zero, or a single zero. -/
def scanWhole : Scan (List Char)
  | '0' :: rest => some (['0'], rest)
  | s => scanDigits Number.isDigit s

/-- Reads the decimals of a number, with the point. -/
def scanDecimals : Scan (List Char)
  | '.' :: rest => (scanDigits Number.isDigit rest).map fun p => ('.' :: p.1, p.2)
  | s => some ([], s)

/-- Reads the exponent of a number. -/
def scanExponent : Scan (List Char)
  | [] => some ([], [])
  | c :: rest =>
    if c = 'e' ∨ c = 'E' then
      let sign := scanSign rest
      (scanDigits Number.isDigit sign.2).map fun p => ('e' :: sign.1 ++ p.1, p.2)
    else some ([], c :: rest)

/-- A whole number, if it fits in 64 bits. -/
def wholeTree? (negative : Bool) (n : Nat) : Option Tree :=
  if negative then
    if n = 0 then some (.scalar (.ofPlain (.count 0)))
    else if n ≤ Nat.pow 2 63 then some (.scalar (.ofPlain (.number (-(Number.ofCount n)))))
    else none
  else if n < Nat.pow 2 63 then some (.scalar (.ofPlain (.count n)))
  else none

/-- A number that is not whole. -/
def realTree (x : Float) : Tree := .scalar (.ofPlain (.number x))

/-- The number that a text is, with the rest. -/
def numberTree? (text : List Char) : Option Tree :=
  (Number.readNumber text).bind fun x => if x == 1.0 / 0.0 then none else some (realTree x)

/-- Reads a number in base ten. -/
def scanDecimal (s : List Char) : Option (Tree × List Char) := do
  let (sign, rest) := scanSign s
  let (whole, rest) ← scanWhole rest
  let (decimals, rest) ← scanDecimals rest
  let (exponent, rest) ← scanExponent rest
  if decimals.isEmpty ∧ exponent.isEmpty then
    return (← wholeTree? (sign == ['-']) (Number.digitsValue whole), rest)
  else return (← numberTree? (sign ++ whole ++ decimals ++ exponent), rest)

/-- Reads a whole number in another base behind its mark. -/
def scanBase (base : Nat) (s : List Char) : Option (Tree × List Char) := do
  let (digits, rest) ← scanDigits (fun c => (Number.digitValue? base c).isSome) s
  return (← wholeTree? false (← Number.readDigits base digits), rest)

/-- Reads one of the words for infinity and for no number, behind a sign. -/
def scanSpecial (sign s : List Char) : Option (Tree × List Char) :=
  let negate (x : Float) : Float := if sign == ['-'] then -x else x
  match Text.stripStart? "inf".toList s with
  | some rest => some (realTree (negate (1.0 / 0.0)), rest)
  | none =>
    (Text.stripStart? "nan".toList s).map fun rest => (realTree (negate (0.0 / 0.0)), rest)

/-- Reads a number. -/
def scanNumber (s : List Char) : Option (Tree × List Char) :=
  match s with
  | '0' :: 'x' :: rest => scanBase 16 rest
  | '0' :: 'o' :: rest => scanBase 8 rest
  | '0' :: 'b' :: rest => scanBase 2 rest
  | s =>
    let sign := scanSign s
    (scanSpecial sign.1 sign.2).or (scanDecimal s)

/-! ## Dates and times -/

/-- Reads exactly `n` digits with a value in a range. -/
def scanField (n low high : Nat) (s : List Char) : Option (Nat × List Char) := do
  let digits := s.take n
  let v ← Number.readDigits 10 digits
  if digits.length = n ∧ low ≤ v ∧ v ≤ high then some (v, s.drop n) else none

/-- A number with leading zeros up to a width. -/
def padded (width n : Nat) : String :=
  let digits := Nat.toDigits 10 n
  String.ofList (List.replicate (width - digits.length) '0' ++ digits)

/-- The days of a month. -/
def monthDays (year month : Nat) : Nat :=
  if month = 2 then
    if year % 4 = 0 ∧ (year % 100 ≠ 0 ∨ year % 400 = 0) then 29 else 28
  else if month ∈ [4, 6, 9, 11] then 30
  else 31

/-- The text behind a mark. -/
def past (mark : Char) : List Char → Option (List Char)
  | c :: rest => if c = mark then some rest else none
  | [] => none

/-- Reads a date. -/
def scanDate (s : List Char) : Option (String × List Char) := do
  let (year, s) ← scanField 4 0 9999 s
  let (month, s) ← scanField 2 1 12 (← past '-' s)
  let (day, s) ← scanField 2 1 (monthDays year month) (← past '-' s)
  return (padded 4 year ++ "-" ++ padded 2 month ++ "-" ++ padded 2 day, s)

/-- Reads the fraction of a second, which is kept up to nanoseconds. -/
def scanFraction : List Char → Option (String × List Char)
  | '.' :: rest =>
    let p := Number.takeDigits rest
    if p.1.isEmpty then none
    else
      let nanos := (p.1.take 9 ++ List.replicate (9 - p.1.length) '0').reverse
      let kept := (nanos.dropWhile (· == '0')).reverse
      some (if kept.isEmpty then "" else "." ++ String.ofList kept, p.2)
  | s => some ("", s)

/-- Reads a time of day. -/
def scanTime (s : List Char) : Option (String × List Char) := do
  let (hour, s) ← scanField 2 0 23 s
  let (minute, s) ← scanField 2 0 59 (← past ':' s)
  let (second, s) ← scanField 2 0 60 (← past ':' s)
  let (fraction, s) ← scanFraction s
  return (padded 2 hour ++ ":" ++ padded 2 minute ++ ":" ++ padded 2 second ++ fraction, s)

/-- Reads the distance from universal time. -/
def scanOffset (s : List Char) : Option (String × List Char) :=
  let sign := scanSign s
  match s with
  | 'Z' :: rest => some ("Z", rest)
  | 'z' :: rest => some ("Z", rest)
  | _ =>
    if sign.1.isEmpty then some ("", s)
    else do
      let (hour, s) ← scanField 2 0 23 sign.2
      let (minute, s) ← scanField 2 0 59 (← past ':' s)
      return (String.ofList sign.1 ++ padded 2 hour ++ ":" ++ padded 2 minute, s)

/-- The time that follows a date, if one does. -/
def scanDayTime (s : List Char) : Option (String × List Char) :=
  match s with
  | [] => some ("", [])
  | c :: rest =>
    if c = 'T' ∨ c = 't' ∨ (c = ' ' ∧ (scanField 2 0 99 rest).isSome) then do
      let (time, rest) ← scanTime rest
      let (offset, rest) ← scanOffset rest
      return ("T" ++ time ++ offset, rest)
    else some ("", s)

/-- Reads a date, a time, or both. -/
def scanMoment (s : List Char) : Option (String × List Char) :=
  match scanDate s with
  | some (date, rest) => (scanDayTime rest).map fun p => (date ++ p.1, p.2)
  | none => scanTime s

/-- The key under which a document holds the text of a date. -/
def momentKey : String := "$__toml_private_datetime"

/-- A date stands for a record with a single entry. -/
def momentTree (text : String) : Tree :=
  .record [(.scalar (.ofPlain (.text momentKey)), .scalar (.ofPlain (.text text)))]

end LoadReplay.Toml
