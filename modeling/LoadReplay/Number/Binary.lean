/-!
# Binary floating point, taken apart

A binary64 value is a sign, a whole significand and a power of two.  Everything that prints, rounds
or sorts such values works on these parts in exact whole-number arithmetic, so it can be reasoned
about without the machine's rounding.
-/

namespace LoadReplay.Number

/-- A binary64 value taken apart.  A finite one is `± significand · 2 ^ exponent`. -/
inductive Parts where
  | nan
  | infinite (negative : Bool)
  | finite (negative : Bool) (significand : Nat) (exponent : Int)
  deriving Repr, DecidableEq

/-- The parts of the value with the given bit pattern: one sign bit, eleven bits of biased
exponent, 52 bits of fraction.  Below the least exponent the leading one is not implied. -/
def Parts.ofBits (bits : Nat) : Parts :=
  let negative := bits / Nat.pow 2 63 % 2 == 1
  let biased : Nat := bits / Nat.pow 2 52 % Nat.pow 2 11
  let fraction : Nat := bits % Nat.pow 2 52
  if biased = 2047 then if fraction = 0 then .infinite negative else .nan
  else if biased = 0 then .finite negative fraction (-1074)
  else .finite negative (Nat.pow 2 52 + fraction) ((biased : Int) - 1075)

/-- The parts of a value. -/
def parts (x : Float) : Parts := Parts.ofBits x.toBits.toNat

/-- Whether the sign bit is set.  A negative zero counts as negative. -/
def Parts.isNegative : Parts → Bool
  | .nan => false
  | .infinite negative => negative
  | .finite negative _ _ => negative

/-- Places a value in the total order of bit patterns: negative values from the largest magnitude
down, then the two zeros, then positive values; a NaN lies beyond the infinity of its sign. -/
def orderKey (x : Float) : Int :=
  let bits := x.toBits.toNat
  if bits < Nat.pow 2 63 then (bits : Int) else -((bits - Nat.pow 2 63 : Nat) : Int) - 1

/-- The number of values that a 64-bit count can take. -/
def countLimit : Nat := Nat.pow 2 64

/-- `significand · 2 ^ exponent`, rounded down to a whole number. -/
def scaleDown (significand : Nat) (exponent : Int) : Nat :=
  match exponent with
  | .ofNat e => significand * Nat.pow 2 e
  | .negSucc e => significand / Nat.pow 2 (e + 1)

/-- `significand · 2 ^ exponent`, rounded up to a whole number. -/
def scaleUp (significand : Nat) (exponent : Int) : Nat :=
  match exponent with
  | .ofNat e => significand * Nat.pow 2 e
  | .negSucc e => (significand + (Nat.pow 2 (e + 1) - 1)) / Nat.pow 2 (e + 1)

/-- The value as a 64-bit count, where `round` makes a positive finite value whole.  A value below
zero and a NaN give zero, a value above the greatest count gives that count. -/
def Parts.toCount (round : Nat → Int → Nat) : Parts → Nat
  | .nan => 0
  | .infinite negative => if negative then 0 else countLimit - 1
  | .finite negative significand exponent =>
    if negative then 0 else min (round significand exponent) (countLimit - 1)

/-- The exact value `numerator / denominator` of the finite magnitude. -/
def fraction (significand : Nat) (exponent : Int) : Nat × Nat :=
  match exponent with
  | .ofNat e => (significand * Nat.pow 2 e, 1)
  | .negSucc e => (significand, Nat.pow 2 (e + 1))

/-- A count as the nearest binary64 value. -/
def ofCount (n : Nat) : Float := n.toUInt64.toFloat

end LoadReplay.Number
