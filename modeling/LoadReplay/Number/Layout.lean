import LoadReplay.Number.Shortest

/-!
# Laying out a decimal

`shortest` chooses the digits of a number, a `Layout` decides how they are written: up to which
magnitudes a plain decimal point is used, what marks a whole number, and the words for the values
that have no digits.  Each text format of this library has one such record.
-/

namespace LoadReplay.Number

/-- The decisions of one number format.  `point` below is the position of the decimal point behind
the first digit: `0.25` has point 0, `2.5` has 1, `250` has 3. -/
structure Layout where
  /-- Numbers with a smaller `point` are written with an exponent. -/
  leastPoint : Option Int
  /-- Numbers with a larger `point` are written with an exponent. -/
  greatestPoint : Option Int
  /-- Written behind a whole number. -/
  wholeMark : String
  /-- Which of two shortest decimals is written that are equally near to the number. -/
  tie : Tie
  notANumber : String
  infinity : String

/-- Whether a number with the decimal point at `point` is written without an exponent. -/
def Layout.isPlain (l : Layout) (point : Int) : Bool :=
  (match l.leastPoint with
    | none => true
    | some least => least ≤ point)
  && (match l.greatestPoint with
    | none => true
    | some greatest => point ≤ greatest)

/-- `n` zeros. -/
def zeros (n : Nat) : String := String.ofList (List.replicate n '0')

/-- Digits with the decimal point at `point`, without an exponent. -/
def Layout.plain (l : Layout) (digits : List Char) (point : Int) : String :=
  if point ≤ 0 then "0." ++ zeros (-point).toNat ++ String.ofList digits
  else
    let p := point.toNat
    if digits.length ≤ p then
      String.ofList digits ++ zeros (p - digits.length) ++ l.wholeMark
    else String.ofList (digits.take p) ++ "." ++ String.ofList (digits.drop p)

/-- An exponent with its sign. -/
def exponentText (e : Int) : String := (if 0 ≤ e then "+" else "") ++ toString e

/-- Digits with an exponent: one digit before the point, the others behind it. -/
def scientific (digits : List Char) (point : Int) : String :=
  let mantissa :=
    match digits with
    | [] => "0"
    | [d] => String.ofList [d]
    | d :: rest => String.ofList [d] ++ "." ++ String.ofList rest
  mantissa ++ "e" ++ exponentText (point - 1)

/-- A decimal in this layout. -/
def Layout.decimal (l : Layout) (d : Decimal) : String :=
  if d.coefficient = 0 then "0" ++ l.wholeMark
  else
    let digits := Nat.toDigits 10 d.coefficient
    let point := (digits.length : Int) + d.exponent
    if l.isPlain point then l.plain digits point else scientific digits point

/-- A binary64 value in this layout, with the fewest digits that identify it. -/
def Layout.write (l : Layout) (x : Float) : String :=
  match parts x with
  | .nan => l.notANumber
  | .infinite negative => (if negative then "-" else "") ++ l.infinity
  | .finite negative m e =>
    let magnitude := if m = 0 then l.decimal ⟨0, 0⟩ else l.decimal (shortest l.tie m e)
    (if negative then "-" else "") ++ magnitude

/-- Numbers in reports and in the text of conditions: never an exponent, and a whole number has no
point. -/
def plainLayout : Layout :=
  { leastPoint := none, greatestPoint := none, wholeMark := "", tie := .up
    notANumber := "NaN", infinity := "inf" }

/-- A number as plain text. -/
def plainText (x : Float) : String := plainLayout.write x

end LoadReplay.Number
