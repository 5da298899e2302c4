import LoadReplay.Number.Fixed

/-!
# Lengths of time

A `Span` is a whole number of nanoseconds below `2 ^ 64` seconds.  It serves both as a length and as
a moment, counted from the start of a run's clock.  Sums can leave the range, so `add?` is partial;
differences stop at zero.
-/

namespace LoadReplay

/-- The greatest length of time, in nanoseconds. -/
def maxNanos : Nat := Nat.pow 2 64 * 1_000_000_000 - 1

/-- A length of time in whole nanoseconds. -/
structure Span where
  nanos : Nat
  le_max : nanos ≤ maxNanos
  deriving DecidableEq

namespace Span

/-- Lengths with the same nanoseconds are equal. -/
theorem ext_nanos {a b : Span} (h : a.nanos = b.nanos) : a = b := by
  cases a; cases b; simp_all

instance : LE Span := ⟨fun a b => a.nanos ≤ b.nanos⟩
instance : LT Span := ⟨fun a b => a.nanos < b.nanos⟩
instance (a b : Span) : Decidable (a ≤ b) := inferInstanceAs (Decidable (a.nanos ≤ b.nanos))
instance (a b : Span) : Decidable (a < b) := inferInstanceAs (Decidable (a.nanos < b.nanos))

theorem le_def {a b : Span} : a ≤ b ↔ a.nanos ≤ b.nanos := Iff.rfl
theorem lt_def {a b : Span} : a < b ↔ a.nanos < b.nanos := Iff.rfl

/-- No time at all. -/
def zero : Span := ⟨0, Nat.zero_le _⟩

instance : Inhabited Span := ⟨zero⟩

/-- Whether no time passes. -/
def isZero (a : Span) : Bool := a.nanos == 0

/-- A number of nanoseconds, if it is in range. -/
def ofNanos? (n : Nat) : Option Span := if h : n ≤ maxNanos then some ⟨n, h⟩ else none

@[simp] theorem nanos_zero : zero.nanos = 0 := rfl

/-- A length that was made has the nanoseconds that it was made of. -/
theorem ofNanos?_eq_some {n : Nat} {a : Span} (h : ofNanos? n = some a) : a.nanos = n := by
  unfold ofNanos? at h
  split at h
  · simp only [Option.some.injEq] at h
    rw [← h]
  · simp at h

/-- A number of nanoseconds that fits in 64 bits. -/
def ofWord (n : UInt64) : Span :=
  ⟨n.toNat, Nat.le_trans (Nat.le_of_lt n.toNat_lt) (by decide)⟩

/-- A number of milliseconds that fits in 32 bits. -/
def millis (n : UInt32) : Span :=
  ⟨n.toNat * 1_000_000, by
    have h := n.toNat_lt
    have : n.toNat * 1_000_000 ≤ UInt32.size * 1_000_000 :=
      Nat.mul_le_mul_right _ (Nat.le_of_lt h)
    exact Nat.le_trans this (by decide)⟩

/-- Whole seconds and further nanoseconds, if the sum is in range. -/
def ofParts? (seconds nanos : Nat) : Option Span := ofNanos? (seconds * 1_000_000_000 + nanos)

/-- The whole seconds. -/
def seconds (a : Span) : Nat := a.nanos / 1_000_000_000

/-- The nanoseconds beyond the whole seconds. -/
def subNanos (a : Span) : Nat := a.nanos % 1_000_000_000

/-- The sum, if it is in range. -/
def add? (a b : Span) : Option Span := ofNanos? (a.nanos + b.nanos)

/-- A sum has the nanoseconds of both. -/
theorem add?_eq_some {a b c : Span} (h : a.add? b = some c) : c.nanos = a.nanos + b.nanos :=
  ofNanos?_eq_some h

/-- The time from `b` to `a`, or no time if `b` is later. -/
def sub (a b : Span) : Span := ⟨a.nanos - b.nanos, Nat.le_trans (Nat.sub_le _ _) a.le_max⟩

instance : Sub Span := ⟨sub⟩

@[simp] theorem nanos_sub (a b : Span) : (a - b).nanos = a.nanos - b.nanos := rfl

/-- The shorter of two spans. -/
def least (a b : Span) : Span := if a ≤ b then a else b

/-- The longer of two spans. -/
def greatest (a b : Span) : Span := if a ≤ b then b else a

/-- The least of two lengths has the least number of nanoseconds. -/
theorem nanos_least (a b : Span) : (least a b).nanos = min a.nanos b.nanos := by
  unfold least
  split <;> rename_i h <;> rw [le_def] at h <;> omega

/-- The sum of all spans, if every partial sum is in range. -/
def sum? : List Span → Option Span :=
  go zero
where
  go (acc : Span) : List Span → Option Span
    | [] => some acc
    | a :: rest => (acc.add? a).bind fun s => go s rest

/-- The length in seconds as a number: the whole seconds plus the nanoseconds divided by `10 ^ 9`,
each rounded once. -/
def toSeconds (a : Span) : Float :=
  Number.ofCount a.seconds + Number.ofCount a.subNanos / 1e9

/-- The length in milliseconds as a number. -/
def toMillis (a : Span) : Float := a.toSeconds * 1000.0

/-- A number of seconds, rounded to the nearest nanosecond with a half going to the even one.  Only
finite numbers that are not negative and whose seconds fit in 64 bits have a span; negative zero is
zero. -/
def ofSeconds? (x : Float) : Option Span :=
  match Number.parts x with
  | .finite negative m e =>
    let f := Number.fraction m e
    if negative ∧ m ≠ 0 then none
    else ofNanos? (Number.divNearest (f.1 * 1_000_000_000) f.2)
  | _ => none

end Span

/-- How a computation on spans can fail: with an error of its own domain, or because a sum of spans
leaves their range, which ends the computation without any message. -/
inductive Fault (ε : Type) where
  | error (e : ε)
  | overflow
  deriving Repr, DecidableEq

/-- A result, or overflow. -/
def Fault.ofOption {ε α : Type} : Option α → Except (Fault ε) α
  | some a => .ok a
  | none => .error .overflow

/-- The same failure with its error changed by a function. -/
def Fault.map {ε δ : Type} (f : ε → δ) : Fault ε → Fault δ
  | .error e => .error (f e)
  | .overflow => .overflow

end LoadReplay
