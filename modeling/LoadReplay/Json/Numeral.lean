import LoadReplay.Json.Value
import LoadReplay.Number.Reader

/-!
# Numbers of JSON texts

A number text is an optional minus sign, whole digits without a leading zero, and optional decimals
and exponent.

The binary64 value of a number that is not whole is not always the nearest one.  The digits are
gathered in a 64-bit significand, as many as fit; the rest only move the exponent.  The significand
then becomes a binary64 number and is multiplied or divided once by a power of ten, or step by step
by `10 ^ 308` when the exponent lies below that.
-/

namespace LoadReplay.Json

/-- The parts of a number text. -/
structure NumberText where
  negative : Bool
  whole : List Char
  /-- The digits behind the point; none if there is no point. -/
  decimals : List Char
  /-- Whether the exponent is negative, and its digits. -/
  exponent : Option (Bool × List Char)

/-- Digits in front of a text, at least one. -/
def someDigits (s : List Char) : Option (List Char × List Char) :=
  let p := Number.takeDigits s
  if p.1.isEmpty then none else some p

/-- The sign of an exponent, and the rest. -/
def exponentSign : List Char → Bool × List Char
  | '-' :: rest => (true, rest)
  | '+' :: rest => (false, rest)
  | s => (false, s)

/-- The exponent in front of a text, if there is one. -/
def scanExponent (s : List Char) : Option (Option (Bool × List Char) × List Char) :=
  match s with
  | [] => some (none, [])
  | c :: rest =>
    if c = 'e' ∨ c = 'E' then
      let sign := exponentSign rest
      (someDigits sign.2).map fun p => (some (sign.1, p.1), p.2)
    else some (none, c :: rest)

/-- The decimals in front of a text, if there are any. -/
def scanDecimals (s : List Char) : Option (List Char × List Char) :=
  match s with
  | '.' :: rest => someDigits rest
  | s => some ([], s)

/-- The number without sign in front of a text. -/
def scanMagnitude (negative : Bool) (s : List Char) : Option (NumberText × List Char) := do
  let (whole, rest) ← someDigits s
  if whole.length ≠ 1 ∧ whole.head? = some '0' then none
  let (decimals, rest) ← scanDecimals rest
  let (exponent, rest) ← scanExponent rest
  return ({ negative, whole, decimals, exponent }, rest)

/-- The number in front of a text, and the rest of the text. -/
def scanNumber : List Char → Option (NumberText × List Char)
  | '-' :: rest => scanMagnitude true rest
  | s => scanMagnitude false s

/-- Reading digits uses up at least one character. -/
theorem someDigits_shorter {s : List Char} {p : List Char × List Char}
    (h : someDigits s = some p) : p.2.length < s.length := by
  unfold someDigits at h
  simp only at h
  split at h
  · simp at h
  · rename_i hne
    simp only [Option.some.injEq] at h
    subst h
    have hlen : (s.takeWhile Number.isDigit).length + (s.dropWhile Number.isDigit).length
        = s.length := by
      rw [← List.length_append, List.takeWhile_append_dropWhile]
    have hpos : 0 < (s.takeWhile Number.isDigit).length := by
      cases hs : s.takeWhile Number.isDigit with
      | nil => simp [Number.takeDigits, hs] at hne
      | cons => simp
    simp only [Number.takeDigits]
    omega

/-- Reading decimals gives nothing back, -/
theorem scanDecimals_shorter {s : List Char} {p : List Char × List Char}
    (h : scanDecimals s = some p) : p.2.length ≤ s.length := by
  unfold scanDecimals at h
  split at h
  · have := someDigits_shorter h
    simp only [List.length_cons]
    omega
  · simp only [Option.some.injEq] at h
    simp [← h]

/-- neither does reading a sign, -/
theorem exponentSign_shorter (s : List Char) : (exponentSign s).2.length ≤ s.length := by
  unfold exponentSign
  split <;> simp

/-- nor reading an exponent. -/
theorem scanExponent_shorter {s : List Char} {p : Option (Bool × List Char) × List Char}
    (h : scanExponent s = some p) : p.2.length ≤ s.length := by
  unfold scanExponent at h
  split at h
  · simp only [Option.some.injEq] at h
    simp [← h]
  · split at h
    · rename_i rest _
      obtain ⟨q, hq, rfl⟩ := Option.map_eq_some_iff.1 h
      have h1 := someDigits_shorter hq
      have h2 := exponentSign_shorter rest
      simp only [List.length_cons]
      omega
    · simp only [Option.some.injEq] at h
      simp [← h]

/-- Reading a magnitude uses up at least one character. -/
theorem scanMagnitude_shorter {negative : Bool} {s : List Char} {p : NumberText × List Char}
    (h : scanMagnitude negative s = some p) : p.2.length < s.length := by
  unfold scanMagnitude at h
  simp only [bind, Option.bind_eq_some_iff] at h
  obtain ⟨⟨w, r1⟩, h1, h⟩ := h
  split at h
  · simp at h
  · simp only [Option.bind_eq_some_iff, pure] at h
    obtain ⟨⟨d, r2⟩, h2, ⟨e, r3⟩, h3, h⟩ := h
    simp only [Option.some.injEq] at h
    have h1 := someDigits_shorter h1
    have h2 := scanDecimals_shorter h2
    have h3 := scanExponent_shorter h3
    rw [← h]
    simp only at *
    omega

/-- What stands behind a number is shorter than what began with it. -/
theorem scanNumber_shorter {s : List Char} {p : NumberText × List Char}
    (h : scanNumber s = some p) : p.2.length < s.length := by
  unfold scanNumber at h
  split at h
  · have := scanMagnitude_shorter h
    simp only [List.length_cons]
    omega
  · exact scanMagnitude_shorter h

/-- Gathers digits in a significand below `2 ^ 64`, up to the first digit that does not fit; also
says how many digits were left out. -/
def gather (significand : Nat) : List Char → Nat × Nat
  | [] => (significand, 0)
  | c :: rest =>
    let next := significand * 10 + (c.toNat - 48)
    if next < Nat.pow 2 64 then gather next rest else (significand, (c :: rest).length)

/-- `x · 10 ^ exponent` by one multiplication or division with a power up to `10 ^ 308`, after
divisions by `10 ^ 308` as long as the exponent lies below.  There is no value beyond binary64. -/
def scale (x : Float) (exponent : Int) : Option Float :=
  if exponent < -308 then
    if x == 0.0 then some x else scale (x / 1e308) (exponent + 308)
  else if exponent < 0 then some (x / Number.nearest 1 (-exponent))
  else if 308 < exponent then if x == 0.0 then some x else none
  else
    let y := x * Number.nearest 1 exponent
    if y.isInf then none else some y
termination_by (-exponent).toNat
decreasing_by omega

/-- The number of a significand with sign and exponent. -/
def Numeral.scaled (negative : Bool) (significand : Nat) (exponent : Int) : Numeral :=
  match scale (Number.ofCount significand) exponent with
  | some x => .real (if negative then -x else x)
  | none => .outOfRange

/-- The greatest exponent that is read; a greater one is infinite for what it does. -/
def maxExponent : Nat := Nat.pow 2 31 - 1

/-- A whole number that fits.  Negative zero is no whole number. -/
def Numeral.ofWhole (negative : Bool) (n : Nat) : Numeral :=
  if !negative then .count n
  else if n ≠ 0 ∧ n ≤ Nat.pow 2 63 then .negative n
  else .real (-(Number.ofCount n))

/-- The value of a number text. -/
def NumberText.value (t : NumberText) : Numeral :=
  let (significand, beyond) := gather 0 t.whole
  if beyond = 0 ∧ t.decimals.isEmpty ∧ t.exponent.isNone then
    .ofWhole t.negative significand
  else
    -- Whole digits that do not fit move the point; a decimal behind them may fit again.
    let (significand, unread) := gather significand t.decimals
    let read := t.decimals.length - unread
    let start := (beyond : Int) - read
    match t.exponent with
    | none => .scaled t.negative significand start
    | some (negative, digits) =>
      let e := Number.digitsValue digits
      if maxExponent < e then
        if significand ≠ 0 ∧ !negative then .outOfRange
        else .real (if t.negative then -0.0 else 0.0)
      else .scaled t.negative significand (if negative then start - e else start + e)

end LoadReplay.Json
