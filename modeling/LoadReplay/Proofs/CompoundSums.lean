import LoadReplay.Proofs.Results
import LoadReplay.Span.Compound
import Mathlib

/-!
# What amounts of time add up to

An amount of a compound duration is added to a total in one or two measures: its whole units, and
then the decimals, each in nanoseconds or in seconds.  Whatever comes of it is exact
(`exact_of_addUnits`), and all that does not fit is refused, but for one sum: nanoseconds that just
end the very last second (`Brims`).  Such a sum is always too long for a span (`Overfills.exceeds`).

Main statements: `exact_of_addUnits` and `addUnits_eq_overflow`.
-/

namespace LoadReplay.Span.Compound

variable {total t : Span} {n : Nat} {inSeconds : Bool}

/-! ## Checked sums -/

/-- Exactly what is less than 2^64 is a word. -/
theorem word_eq_ok {m : Nat} : word n = .ok m ↔ n < 2 ^ 64 ∧ n = m := by
  have hpow : Nat.pow 2 64 = 2 ^ 64 := rfl
  rw [word, hpow]
  split
  · rename_i h
    exact ⟨fun heq => ⟨h, Except.ok.inj heq⟩, fun heq => congrArg _ heq.2⟩
  · rename_i h
    exact ⟨fun heq => (by cases heq), fun heq => absurd heq.1 h⟩

theorem word_of_lt (h : n < 2 ^ 64) : word n = .ok n := word_eq_ok.2 ⟨h, rfl⟩

/-- Anything greater is too great a number. -/
theorem word_of_le (h : 2 ^ 64 ≤ n) : word n = .error (.error .numberOverflow) :=
  if_neg (Nat.not_lt.2 h)

/-- Words are checked, so none of them overflows. -/
theorem word_ne_overflow (n : Nat) : word n ≠ .error .overflow := by
  rw [word]
  split <;> intro h <;> cases h

/-- Seconds and nanoseconds make up a length. -/
theorem ofParts_eq_ok {ε : Type} {seconds nanos : Nat} :
    (Fault.ofOption (ofParts? seconds nanos) : Except (Fault ε) Span) = .ok t ↔
      t.nanos = seconds * 1_000_000_000 + nanos := by
  rw [ofParts?, ofNanos?]
  split
  · refine ⟨fun h => ?_, fun h => congrArg _ (ext_nanos h.symm)⟩
    rw [← Except.ok.inj h]
  · rename_i hgreat
    refine ⟨fun h => (by cases h), fun h => ?_⟩
    exact absurd (h ▸ t.le_max) hgreat

/-- They overflow exactly where they reach 2^64 seconds. -/
theorem ofParts_eq_overflow {ε : Type} {seconds nanos : Nat} :
    (Fault.ofOption (ofParts? seconds nanos) : Except (Fault ε) Span) = .error .overflow ↔
      2 ^ 64 * 1_000_000_000 ≤ seconds * 1_000_000_000 + nanos := by
  have hmax : maxNanos + 1 = 2 ^ 64 * 1_000_000_000 := rfl
  rw [ofParts?, ofNanos?]
  split
  · exact ⟨fun h => (by cases h), fun h => (by omega)⟩
  · exact ⟨fun _ => (by omega), fun _ => rfl⟩

/-- A length is its seconds and the nanoseconds beside them. -/
theorem nanos_eq (a : Span) : a.nanos = a.seconds * 1_000_000_000 + a.subNanos :=
  (Nat.div_add_mod' a.nanos 1_000_000_000).symm

/-- Beside the seconds there is less than one. -/
theorem subNanos_lt (a : Span) : a.subNanos < 1_000_000_000 := Nat.mod_lt _ (by decide)

/-- The seconds of a length are a word. -/
theorem seconds_lt (a : Span) : a.seconds < 2 ^ 64 := by
  have hmax : maxNanos + 1 = 2 ^ 64 * 1_000_000_000 := rfl
  have hle := a.le_max
  have heq := nanos_eq a
  omega

/-- Seconds are added as soon as their sum fits. -/
theorem addMeasure_seconds (total : Span) (n : Nat) :
    addMeasure total true n =
      if total.seconds + n < 2 ^ 64 then
        Fault.ofOption (ofParts? (total.seconds + n) total.subNanos)
      else .error (.error .numberOverflow) := by
  have hsub := subNanos_lt total
  rw [addMeasure, if_pos rfl, addAmount, Nat.add_zero, word_of_lt (by omega)]
  dsimp only [bind, Except.bind]
  rw [if_neg (by omega)]
  by_cases hfits : total.seconds + n < 2 ^ 64
  · rw [if_pos hfits, word_of_lt hfits]
  · rw [if_neg hfits, word_of_le (Nat.not_lt.1 hfits)]

/-- Nanoseconds are added as soon as their sum fits and the carry does.  A single second of them is
carried without a check. -/
theorem addMeasure_nanos (total : Span) (n : Nat) :
    addMeasure total false n =
      if total.subNanos + n < 2 ^ 64 then
        if total.subNanos + n ≤ 1_000_000_000 then
          Fault.ofOption (ofParts? total.seconds (total.subNanos + n))
        else if total.seconds + (total.subNanos + n) / 1_000_000_000 < 2 ^ 64 then
          Fault.ofOption (ofParts? (total.seconds + (total.subNanos + n) / 1_000_000_000)
            ((total.subNanos + n) % 1_000_000_000))
        else .error (.error .numberOverflow)
      else .error (.error .numberOverflow) := by
  have hseconds := seconds_lt total
  rw [addMeasure, if_neg Bool.false_ne_true, addAmount]
  dsimp only [bind, Except.bind]
  by_cases hfits : total.subNanos + n < 2 ^ 64
  case neg => rw [if_neg hfits, word_of_le (Nat.not_lt.1 hfits)]
  rw [if_pos hfits, word_of_lt hfits]
  dsimp only
  by_cases hless : total.subNanos + n ≤ 1_000_000_000
  · rw [if_pos hless, if_neg (Nat.not_lt.2 hless), Nat.add_zero, word_of_lt hseconds]
  rw [if_neg hless, if_pos (Nat.not_le.1 hless), Nat.zero_add, word_of_lt (by omega)]
  dsimp only [Except.map]
  by_cases hcarry : total.seconds + (total.subNanos + n) / 1_000_000_000 < 2 ^ 64
  · rw [if_pos hcarry, word_of_lt hcarry]
  · rw [if_neg hcarry, word_of_le (Nat.not_lt.1 hcarry)]

/-- The nanoseconds of a quantity of some measure. -/
def measureNanos (inSeconds : Bool) (n : Nat) : Nat := if inSeconds then n * 1_000_000_000 else n

/-- What is added is added exactly. -/
theorem exact_of_addMeasure (h : addMeasure total inSeconds n = .ok t) :
    t.nanos = total.nanos + measureNanos inSeconds n := by
  have htotal := nanos_eq total
  cases inSeconds with
  | true =>
    rw [addMeasure_seconds] at h
    split at h
    · rw [ofParts_eq_ok] at h
      rw [measureNanos, if_pos rfl]
      omega
    · cases h
  | false =>
    rw [addMeasure_nanos] at h
    rw [measureNanos, if_neg Bool.false_ne_true]
    split at h
    · split at h
      · rw [ofParts_eq_ok] at h
        omega
      · split at h
        · rw [ofParts_eq_ok] at h
          omega
        · cases h
    · cases h

/-- Whether some nanoseconds just end the last second that there is. -/
structure Brims (total : Span) (n : Nat) : Prop where
  last : total.seconds = 2 ^ 64 - 1
  full : total.subNanos + n = 1_000_000_000

/-- Of all sums that do not fit only one is not refused. -/
theorem addMeasure_eq_overflow :
    addMeasure total inSeconds n = .error .overflow ↔ inSeconds = false ∧ Brims total n := by
  have hsub := subNanos_lt total
  have hseconds := seconds_lt total
  cases inSeconds with
  | true =>
    refine ⟨fun h => ?_, fun h => (by cases h.1)⟩
    rw [addMeasure_seconds] at h
    split at h
    · rw [ofParts_eq_overflow] at h
      omega
    · cases h
  | false =>
    rw [addMeasure_nanos]
    -- Only the carry out of the nanoseconds is unchecked: every other sum is refused as too large
    -- before it is formed.
    constructor
    · intro h
      split at h
      · split at h
        · rw [ofParts_eq_overflow] at h
          exact ⟨rfl, by omega, by omega⟩
        · split at h
          · rw [ofParts_eq_overflow] at h
            omega
          · cases h
      · cases h
    · rintro ⟨-, hlast, hfull⟩
      rw [if_pos (by omega), if_pos (by omega), ofParts_eq_overflow]
      omega

/-! ## Units and their fractions -/

/-- How long a unit is, in nanoseconds. -/
def Unit.nanos (u : Unit) : Nat := measureNanos u.whole.1 u.whole.2

/-- Whole units and their fractions are counted in different measures, but of the same length. -/
theorem Unit.nanos_of_fractional {u : Unit} {factor : Nat}
    (h : u.fractional = some (inSeconds, factor)) : measureNanos inSeconds factor = u.nanos := by
  cases u <;> cases h <;> rfl

/-- A multiple of a measure is as many times as long. -/
theorem measureNanos_mul (inSeconds : Bool) (n factor : Nat) :
    measureNanos inSeconds (n * factor) = n * measureNanos inSeconds factor := by
  cases inSeconds with
  | true => exact Nat.mul_assoc n factor _
  | false => rfl

/-- The number that some decimals stand for. -/
def Decimals.value (d : Decimals) : Rat := d.numerator / d.denominator

/-- The number that the decimals of an amount stand for, if there are any. -/
def decimalsValue (decimals : Option Decimals) : Rat := decimals.elim 0 Decimals.value

variable {decimals : Option Decimals} {spelling : String}

/-- How an amount is added: the whole units are, and then the decimals in a measure that they are a
whole number of. -/
theorem addUnits_eq_ok (h : addUnits total n decimals spelling = .ok t) :
    ∃ u whole, Unit.ofText? spelling = some u ∧
      addMeasure total u.whole.1 (n * u.whole.2) = .ok whole ∧
      match decimals with
      | none => t = whole
      | some d => ∃ inSeconds factor, u.fractional = some (inSeconds, factor) ∧
          d.numerator * factor % d.denominator = 0 ∧
          addMeasure whole inSeconds (d.numerator * factor / d.denominator) = .ok t := by
  rw [addUnits] at h
  cases hu : Unit.ofText? spelling with
  | none =>
    rw [hu] at h
    cases h
  | some u =>
    rw [hu] at h
    obtain ⟨scaled, hscaled, h⟩ := bind_eq_ok.1 h
    obtain ⟨-, rfl⟩ := word_eq_ok.1 hscaled
    obtain ⟨whole, hwhole, h⟩ := bind_eq_ok.1 h
    refine ⟨u, whole, rfl, hwhole, ?_⟩
    -- Without decimals the whole amount is all there is to add.
    cases decimals with
    | none => exact (Except.ok.inj h).symm
    | some d =>
      cases hf : u.fractional with
      | none =>
        simp only [hf] at h
        cases h
      | some measure =>
        simp only [hf] at h
        obtain ⟨scaled, hscaled, h⟩ := bind_eq_ok.1 h
        obtain ⟨-, rfl⟩ := word_eq_ok.1 hscaled
        split at h
        · rename_i hdivides
          exact ⟨_, _, rfl, hdivides, h⟩
        · cases h

/-- Decimals that are a whole number of parts of a unit are as long as that share of it. -/
theorem measureNanos_decimals {d : Decimals} {u : Unit} {factor : Nat}
    (hf : u.fractional = some (inSeconds, factor))
    (hdivides : d.numerator * factor % d.denominator = 0) :
    ((measureNanos inSeconds (d.numerator * factor / d.denominator) : Nat) : Rat) =
      d.value * u.nanos := by
  have hquotient : ((d.numerator * factor / d.denominator : Nat) : Rat) =
      d.numerator * factor / d.denominator := by
    rw [Nat.cast_div_charZero (Nat.dvd_of_mod_eq_zero hdivides)]
    push_cast
    rfl
  rw [← Nat.mul_one (d.numerator * factor / d.denominator), measureNanos_mul, Nat.cast_mul,
    hquotient, ← Unit.nanos_of_fractional hf, ← Nat.mul_one factor, measureNanos_mul,
    Decimals.value]
  push_cast
  ring

/-- **Amounts are added exactly.** -/
theorem exact_of_addUnits (h : addUnits total n decimals spelling = .ok t) :
    ∃ u, Unit.ofText? spelling = some u ∧
      (t.nanos : Rat) = total.nanos + (n + decimalsValue decimals) * u.nanos := by
  obtain ⟨u, whole, hu, hwhole, hrest⟩ := addUnits_eq_ok h
  have hexact := exact_of_addMeasure hwhole
  rw [measureNanos_mul] at hexact
  refine ⟨u, hu, ?_⟩
  cases decimals with
  | none =>
    rw [hrest, hexact, decimalsValue, Option.elim_none, Unit.nanos]
    push_cast
    ring
  | some d =>
    obtain ⟨inSeconds, factor, hf, hdivides, hadd⟩ := hrest
    rw [exact_of_addMeasure hadd, Nat.cast_add, hexact, measureNanos_decimals hf hdivides,
      decimalsValue, Option.elim_some, Unit.nanos]
    push_cast
    ring

/-- Where adding an amount leaves the range of spans without being refused: its whole units, or
else its decimals, are nanoseconds that just end the last second. -/
inductive Overfills (total : Span) (n : Nat) (decimals : Option Decimals) (u : Unit) : Prop where
  | whole (factor : Nat) (unit : u.whole = (false, factor)) (brims : Brims total (n * factor))
  | decimals (d : Decimals) (factor : Nat) (t : Span) (given : decimals = some d)
    (fits : n * u.whole.2 < 2 ^ 64) (added : addMeasure total u.whole.1 (n * u.whole.2) = .ok t)
    (unit : u.fractional = some (false, factor)) (scaled : d.numerator * factor < 2 ^ 64)
    (divides : d.numerator * factor % d.denominator = 0)
    (brims : Brims t (d.numerator * factor / d.denominator))

/-- A sum that brims is exactly one nanosecond longer than the longest length. -/
theorem Brims.nanos_eq (h : Brims total n) : total.nanos + n = 2 ^ 64 * 1_000_000_000 := by
  have hlast := h.last
  have hfull := h.full
  have htotal := Compound.nanos_eq total
  omega

/-- Decimals take nothing away. -/
theorem decimalsValue_nonneg (decimals : Option Decimals) : 0 ≤ decimalsValue decimals := by
  cases decimals with
  | none => exact le_rfl
  | some d =>
    show 0 ≤ d.value
    rw [Decimals.value]
    positivity

/-- Nothing that fits overflows. -/
theorem Overfills.exceeds {u : Unit} (h : Overfills total n decimals u) :
    (2 ^ 64 * 1_000_000_000 : Rat) ≤ total.nanos + (n + decimalsValue decimals) * u.nanos := by
  cases h with
  | whole factor hunit hbrims =>
    have hfull : (total.nanos + n * factor : Rat) = 2 ^ 64 * 1_000_000_000 := by
      exact_mod_cast hbrims.nanos_eq
    have hnanos : u.nanos = factor := by
      rw [Unit.nanos, hunit]
      rfl
    have hmore : 0 ≤ decimalsValue decimals * factor :=
      mul_nonneg (decimalsValue_nonneg decimals) (Nat.cast_nonneg factor)
    rw [hnanos]
    linarith
  | decimals d factor t hd hfits hadded hunit hscaled hdivides hbrims =>
    subst hd
    have hfull : (t.nanos + (d.numerator * factor / d.denominator : Nat) : Rat) =
        2 ^ 64 * 1_000_000_000 := by
      exact_mod_cast hbrims.nanos_eq
    have hpart : ((d.numerator * factor / d.denominator : Nat) : Rat) = d.value * u.nanos :=
      measureNanos_decimals hunit hdivides
    have hwhole : (t.nanos : Rat) = total.nanos + n * u.nanos := by
      rw [exact_of_addMeasure hadded, measureNanos_mul, Unit.nanos]
      push_cast
      rfl
    rw [decimalsValue, Option.elim_some]
    linarith

/-- **When amounts overflow.** -/
theorem addUnits_eq_overflow :
    addUnits total n decimals spelling = .error .overflow ↔
      ∃ u, Unit.ofText? spelling = some u ∧ Overfills total n decimals u := by
  rw [addUnits]
  cases hu : Unit.ofText? spelling with
  | none => exact ⟨fun h => (by cases h), fun ⟨u, hu, _⟩ => (by cases hu)⟩
  | some u =>
    simp only [Option.some.injEq, exists_eq_left']
    -- Words that do not fit are errors and not overflows, so only the two sums are left to blame.
    constructor
    · intro h
      rcases bind_eq_error.1 h with hword | ⟨scaled, hscaled, h⟩
      · exact absurd hword (word_ne_overflow _)
      obtain ⟨hfits, rfl⟩ := word_eq_ok.1 hscaled
      rcases bind_eq_error.1 h with hwhole | ⟨whole, hwhole, h⟩
      · obtain ⟨hunit, hbrims⟩ := addMeasure_eq_overflow.1 hwhole
        exact .whole u.whole.2 (Prod.ext hunit rfl) hbrims
      cases decimals with
      | none => cases h
      | some d =>
        cases hf : u.fractional with
        | none =>
          simp only [hf] at h
          cases h
        | some measure =>
          obtain ⟨inSeconds, factor⟩ := measure
          simp only [hf] at h
          rcases bind_eq_error.1 h with hword | ⟨scaled, hscaled, h⟩
          · exact absurd hword (word_ne_overflow _)
          obtain ⟨hword, rfl⟩ := word_eq_ok.1 hscaled
          split at h
          · rename_i hdivides
            obtain ⟨rfl, hbrims⟩ := addMeasure_eq_overflow.1 h
            exact .decimals d factor whole rfl hfits hwhole hf hword hdivides hbrims
          · cases h
    · intro h
      cases h with
      | whole factor hunit hbrims =>
        have hfull := hbrims.full
        have hoverflow : addMeasure total u.whole.1 (n * u.whole.2) = .error .overflow := by
          rw [hunit]
          exact addMeasure_eq_overflow.2 ⟨rfl, hbrims⟩
        have hfits : n * u.whole.2 < 2 ^ 64 := by
          rw [hunit]
          show n * factor < 2 ^ 64
          omega
        refine bind_eq_error.2 (Or.inr ⟨_, word_of_lt hfits, ?_⟩)
        exact bind_eq_error.2 (Or.inl hoverflow)
      | decimals d factor whole hd hfits hwhole hunit hword hdivides hbrims =>
        subst hd
        refine bind_eq_error.2 (Or.inr ⟨_, word_of_lt hfits, ?_⟩)
        refine bind_eq_error.2 (Or.inr ⟨whole, hwhole, ?_⟩)
        simp only [hunit]
        refine bind_eq_error.2 (Or.inr ⟨_, word_of_lt hword, ?_⟩)
        rw [if_pos hdivides]
        exact addMeasure_eq_overflow.2 ⟨rfl, hbrims⟩

/-- The only error of a sum is that a number is too great. -/
theorem addMeasure_eq_error {e : Error} (h : addMeasure total inSeconds n = .error (.error e)) :
    e = .numberOverflow := by
  have hparts (seconds nanos : Nat) :
      (Fault.ofOption (ofParts? seconds nanos) : Except (Fault Error) Span) ≠
        .error (.error e) := by
    cases ofParts? seconds nanos <;> exact fun h => (by cases h)
  cases inSeconds with
  | true =>
    rw [addMeasure_seconds] at h
    split at h
    · exact absurd h (hparts _ _)
    · exact (Fault.error.inj (Except.error.inj h)).symm
  | false =>
    rw [addMeasure_nanos] at h
    split at h
    · split at h
      · exact absurd h (hparts _ _)
      split at h
      · exact absurd h (hparts _ _)
      · exact (Fault.error.inj (Except.error.inj h)).symm
    · exact (Fault.error.inj (Except.error.inj h)).symm

/-- So it is of a single word. -/
theorem word_eq_error {e : Error} (h : word n = .error (.error e)) : e = .numberOverflow := by
  rw [word] at h
  split at h
  · cases h
  · exact (Fault.error.inj (Except.error.inj h)).symm

/-- An amount in a unit that is known is refused for its size only. -/
theorem addUnits_eq_error {u : Unit} {e : Error} (hu : Unit.ofText? spelling = some u)
    (h : addUnits total n decimals spelling = .error (.error e)) : e = .numberOverflow := by
  rw [addUnits, hu] at h
  rcases bind_eq_error.1 h with hword | ⟨scaled, -, h⟩
  · exact word_eq_error hword
  rcases bind_eq_error.1 h with hwhole | ⟨whole, -, h⟩
  · exact addMeasure_eq_error hwhole
  cases decimals with
  | none => cases h
  | some d =>
    cases hf : u.fractional with
    | none =>
      simp only [hf] at h
      exact (Fault.error.inj (Except.error.inj h)).symm
    | some measure =>
      simp only [hf] at h
      rcases bind_eq_error.1 h with hword | ⟨scaled, -, h⟩
      · exact word_eq_error hword
      split at h
      · exact addMeasure_eq_error h
      · exact (Fault.error.inj (Except.error.inj h)).symm

end LoadReplay.Span.Compound
