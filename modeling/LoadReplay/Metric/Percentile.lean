import LoadReplay.Number.Scalar

/-!
# Percentiles

The percentile of an ascending list by linear interpolation between the two nearest ranks.  It is
defined over any `Number.Scalar`, so that the binary64 computation and its exact reading over the
rationals are one definition.  The place of a percentile and the value at a place are computed
apart, since only the first is arithmetic on ranks.
-/

namespace LoadReplay.Metric

open Number

/-- The rank of percentile `p` among `n` values: a place on the line from the first to the last. -/
def rank {α : Type} [Scalar α] (n : Nat) (p : α) : α :=
  clamp (Scalar.ofNat 0) (Scalar.ofNat 100) p / Scalar.ofNat 100 * Scalar.ofNat (n - 1)

/-- A place in an ascending list: between two values of it, some part of the way beyond the lower
one. -/
structure Place (α : Type) where
  below : Nat
  above : Nat
  beyond : α

/-- The place of percentile `p` among `n` values. -/
def place {α : Type} [Scalar α] (n : Nat) (p : α) : Place α :=
  let rank := rank n p
  let below := Scalar.floor rank
  { below, above := Scalar.ceil rank, beyond := rank - Scalar.ofNat below }

/-- The value at a place of an ascending list.  Between two values it is interpolated, and the
result never leaves the range of the list. -/
def valueAt {α : Type} [Scalar α] (sorted : List α) (place : Place α) : Option α := do
  let first ← sorted.head?
  let last ← sorted.getLast?
  let low ← sorted[place.below]?
  if place.below = place.above then return low
  let high ← sorted[place.above]?
  return clamp first last (low + (high - low) * place.beyond)

/-- Percentile `p`, from 0 to 100, of an ascending list. -/
def percentile {α : Type} [Scalar α] (sorted : List α) (p : α) : Option α :=
  valueAt sorted (place sorted.length p)

end LoadReplay.Metric
