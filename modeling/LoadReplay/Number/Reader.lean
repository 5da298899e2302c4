import LoadReplay.Number.Binary
import LoadReplay.Number.Whole
import LoadReplay.Text.Split

/-!
# Numbers in text

A number text is an optional sign and then either one of the words `inf`, `infinity` and `nan` in
any case, or decimal digits with an optional point and an optional exponent, with at least one
digit beside the point.  Nothing else is a number: no blanks, no underscores, no other bases.  The
value is the binary64 number nearest to the decimal, a half going to the even neighbour.
-/

namespace LoadReplay.Number

/-- The digits at the front of a text, and the rest. -/
def takeDigits (s : List Char) : List Char × List Char :=
  (s.takeWhile isDigit, s.dropWhile isDigit)

/-- The value of digits already known to be digits. -/
def digitsValue (s : List Char) : Nat := (readOn 10 0 s).getD 0

/-- `coefficient · 10 ^ exponent` as the nearest binary64 value.  A decimal beyond the largest value
is infinite, one far below the smallest is zero; both are decided by the position of the first digit
before any power is taken. -/
def nearest (coefficient : Nat) (exponent : Int) : Float :=
  let point := ((Nat.toDigits 10 coefficient).length : Int) + exponent
  if coefficient = 0 then 0.0
  else if point > 400 then 1.0 / 0.0
  else if point < -400 then 0.0
  else
    match exponent with
    | .ofNat e => Float.ofScientific coefficient false e
    | .negSucc e => Float.ofScientific coefficient true (e + 1)

/-- An exponent mark, an optional sign and at least one digit, up to the end of the text.  A text
without an exponent has exponent zero. -/
def readExponent : List Char → Option Int
  | [] => some 0
  | c :: rest =>
    if c = 'e' ∨ c = 'E' then
      match rest with
      | '-' :: digits => (readDigits 10 digits).map fun n => -(n : Int)
      | '+' :: digits => (readDigits 10 digits).map Int.ofNat
      | digits => (readDigits 10 digits).map Int.ofNat
    else none

/-- A number without a sign. -/
def readMagnitude (s : List Char) : Option Float :=
  let word := Text.lower s
  if word = "inf".toList ∨ word = "infinity".toList then some (1.0 / 0.0)
  else if word = "nan".toList then some (0.0 / 0.0)
  else
    let whole := takeDigits s
    let decimals :=
      match whole.2 with
      | '.' :: rest => takeDigits rest
      | rest => ([], rest)
    if whole.1.isEmpty ∧ decimals.1.isEmpty then none
    else (readExponent decimals.2).map fun e =>
      nearest (digitsValue (whole.1 ++ decimals.1)) (e - decimals.1.length)

/-- Reads a number text. -/
def readNumber (s : List Char) : Option Float :=
  match s with
  | '-' :: rest => (readMagnitude rest).map fun x => -x
  | '+' :: rest => readMagnitude rest
  | s => readMagnitude s

end LoadReplay.Number
