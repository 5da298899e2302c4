import LoadReplay.Number.Binary

/-!
# Arithmetic for statistics and ramps

Percentiles and ramps are computed over any kind of number that can do the operations below.  Runs
use binary64; the same definitions over the rationals say what the binary64 results approximate.
-/

namespace LoadReplay.Number

/-- Numbers that a percentile or a ramp can be computed with. -/
class Scalar (α : Type) extends Add α, Sub α, Mul α, Div α where
  /-- A count as a number. -/
  ofNat : Nat → α
  /-- Whether the first number is smaller. -/
  lt : α → α → Bool
  /-- Rounded down to a count; what lies below zero gives zero. -/
  floor : α → Nat
  /-- Rounded up to a count; what lies below zero gives zero. -/
  ceil : α → Nat

instance : Scalar Float where
  ofNat := ofCount
  lt a b := a < b
  floor x := (parts x).toCount scaleDown
  ceil x := (parts x).toCount scaleUp

instance : Scalar Rat where
  ofNat n := n
  lt a b := a < b
  floor x := x.floor.toNat
  ceil x := x.ceil.toNat

/-- The number moved into the range from `low` to `high`.  A NaN stays as it is. -/
def clamp {α : Type} [Scalar α] (low high x : α) : α :=
  let x := if Scalar.lt x low then low else x
  if Scalar.lt high x then high else x

end LoadReplay.Number
