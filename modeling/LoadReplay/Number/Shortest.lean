import LoadReplay.Number.Binary

/-!
# The shortest decimal of a binary64 value

The decimal with the fewest digits that still rounds to a given binary64 value, and of those the
one nearest to it.  Two of them can be equally near, as `…23.87` and `…23.88` are to
`85516826591923.875`; a format says which one it takes (`Tie`).

A positive value `m · 2 ^ e` rounds back from every real strictly between the midpoints to its two
neighbours, and from the midpoints themselves when `m` is even.  All of these are multiples of
`2 ^ (e - 2)`, hence of a power of ten as soon as enough places are taken, so the interval is a pair
of whole numbers (`Interval`).  On the grid of multiples of `10 ^ k` a point of the interval exists
only if one of the two grid points beside the value is in it; `shortest` therefore tries these two
for one digit, two digits, and so on.
-/

namespace LoadReplay.Number

/-- The reals that round to one binary64 value, as multiples of `10 ^ (-places)`. -/
structure Interval where
  /-- The midpoint to the next smaller value. -/
  lower : Nat
  /-- The value itself. -/
  value : Nat
  /-- The midpoint to the next larger value. -/
  upper : Nat
  /-- Whether the two midpoints round to the value. -/
  closed : Bool
  places : Nat
  deriving Repr

/-- The rounding interval of `m · 2 ^ e`.  The gap below a power of two is half the gap above it,
except at the least exponent. -/
def Interval.ofParts (m : Nat) (e : Int) : Interval :=
  let places := (2 - e).toNat
  let unit := if e < 2 then Nat.pow 5 places else Nat.pow 2 (e - 2).toNat
  let below := if m = Nat.pow 2 52 ∧ e ≠ -1074 then 1 else 2
  { lower := (4 * m - below) * unit
    value := 4 * m * unit
    upper := (4 * m + 2) * unit
    closed := m % 2 == 0
    places }

/-- Whether a multiple of the interval's unit rounds to the value. -/
def Interval.holds (i : Interval) (n : Nat) : Bool :=
  (i.lower < n && n < i.upper) || (i.closed && (n == i.lower || n == i.upper))

/-- How many decimal digits a positive number has. -/
def digitCount (n : Nat) : Nat := (Nat.toDigits 10 n).length

/-- `coefficient · 10 ^ exponent`. -/
structure Decimal where
  coefficient : Nat
  exponent : Int
  deriving Repr, DecidableEq

/-- Which of two decimals that are equally near is taken. -/
inductive Tie where
  /-- The greater one. -/
  | up
  /-- The one whose last digit is even. -/
  | even
  deriving Repr, DecidableEq

/-- Whether the smaller of two neighbours on a grid is nearer to the value than the greater one;
`below` and `above` are their distances and `c` is the coefficient of the smaller one. -/
def Tie.takesSmaller (t : Tie) (below above c : Nat) : Bool :=
  below < above || (below == above && t == .even && c % 2 == 0)

/-- The point of the grid of multiples of `10 ^ drop` that lies in the interval nearest to the
value, if one of the value's two neighbours on that grid does. -/
def Interval.onGrid? (t : Tie) (i : Interval) (drop : Nat) : Option Decimal :=
  let step := Nat.pow 10 drop
  let c := i.value / step
  let exponent := (drop : Int) - i.places
  let low := i.holds (c * step)
  let high := i.holds ((c + 1) * step)
  if low && (!high || t.takesSmaller (i.value - c * step) ((c + 1) * step - i.value) c) then
    some ⟨c, exponent⟩
  else if high then some ⟨c + 1, exponent⟩
  else none

/-- The grids tried, coarsest first: `drop` digits are left out, then one fewer, down to none. -/
def Interval.search (t : Tie) (i : Interval) : Nat → Decimal
  | 0 => (i.onGrid? t 0).getD ⟨i.value, -i.places⟩
  | drop + 1 => (i.onGrid? t (drop + 1)).getD (i.search t drop)

/-- The same decimal with a coefficient that does not end in zero. -/
def Decimal.normalize (d : Decimal) : Decimal :=
  go d.coefficient d.exponent d.coefficient
where
  go (coefficient : Nat) (exponent : Int) : Nat → Decimal
    | 0 => ⟨coefficient, exponent⟩
    | fuel + 1 =>
      if coefficient ≠ 0 ∧ coefficient % 10 = 0 then go (coefficient / 10) (exponent + 1) fuel
      else ⟨coefficient, exponent⟩

/-- The shortest decimal that rounds to the positive value `m · 2 ^ e`. -/
def shortest (t : Tie) (m : Nat) (e : Int) : Decimal :=
  let i := Interval.ofParts m e
  (i.search t (digitCount i.value - 1)).normalize

end LoadReplay.Number
