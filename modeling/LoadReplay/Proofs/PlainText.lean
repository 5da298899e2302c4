import LoadReplay.Number.Layout
import LoadReplay.Proofs.Binary64

/-!
# Plain texts are read back

The plain text of a number is the shortest decimal of those that round to it, without an exponent.
The number is read again from that text.

## Shape of the proof

The search for the shortest decimal goes from coarse grids to fine ones, and whatever it ends with
is a point of the interval of the number, since the number itself is the last candidate
(`Interval.exists_search`).  The points of that interval round to the number
(`Interval.roundsTo_of_holds`).  Writing the digits of a decimal with a point among them does not
change what they stand for (`plain_isPointed`), and reading such a text gives the value that its
decimal rounds to (`parts_nearest`).

Main statement: `readNumber_plainText`.
-/

namespace LoadReplay.Number

/-! ## The shortest decimal -/

/-- The number that a decimal stands for. -/
def Decimal.value (d : Decimal) : Rat := d.coefficient * 10 ^ d.exponent

/-- Zeros at the end of the digits may as well stand in the exponent. -/
theorem Decimal.value_shift (c : Nat) (drop : Nat) (e : Int) :
    Decimal.value ⟨c, drop + e⟩ = (c * 10 ^ drop : Nat) * 10 ^ e := by
  unfold Decimal.value
  rw [zpow_add₀ (by norm_num), zpow_natCast]
  push_cast
  ring

/-- Normalizing a number does not change it. -/
theorem Decimal.value_normalize (d : Decimal) : d.normalize.value = d.value := by
  suffices hgo : ∀ fuel c e, (normalize.go c e fuel).value = value ⟨c, e⟩ from hgo _ _ _
  intro fuel
  induction fuel with
  | zero => exact fun _ _ => rfl
  | succ fuel ih =>
    intro c e
    rw [normalize.go]
    split
    case isTrue hzero =>
      have hc : c / 10 * 10 ^ 1 = c := Nat.div_mul_cancel (Nat.dvd_of_mod_eq_zero hzero.2)
      rw [ih, Int.add_comm]
      exact (value_shift (c / 10) 1 e).trans (by rw [hc]; rfl)
    case isFalse => rfl

namespace Interval

variable {i : Interval} {t : Tie} {m n drop : Nat} {e : Int}

/-- What one multiple of the interval of a value with the exponent `e` stands for. -/
def unit (e : Int) : Nat := if e < 2 then Nat.pow 5 (2 - e).toNat else Nat.pow 2 (e - 2).toNat

/-- The unit in which the digits are searched is a quarter of the last binary place. -/
theorem unit_mul (e : Int) : (unit e : Rat) * 10 ^ (-((2 - e).toNat : Int)) = 2 ^ (e - 2) := by
  unfold unit
  split
  case isTrue h =>
    have hexponent : e - 2 = -((2 - e).toNat : Int) := by omega
    rw [hexponent, zpow_neg, zpow_neg, zpow_natCast, zpow_natCast]
    have hten : (10 : Rat) = 5 * 2 := by norm_num
    rw [hten, mul_pow]
    simp only [Nat.pow_eq]
    push_cast
    field_simp
  case isFalse h =>
    have hplaces : (2 - e).toNat = 0 := by omega
    have hexponent : e - 2 = ((e - 2).toNat : Int) := by omega
    conv_rhs => rw [hexponent, zpow_natCast]
    rw [hplaces]
    simp

/-- The number that a multiple of the interval's unit stands for. -/
def point (i : Interval) (n : Nat) : Rat := n * 10 ^ (-(i.places : Int))

/-- The lower end of the interval lies half a gap below the number. -/
theorem point_lower (hm : 0 < m) :
    (ofParts m e).point (ofParts m e).lower = (4 * m - gapBelow m e) * 2 ^ (e - 2) := by
  have hgap : gapBelow m e ≤ 4 * m := by
    unfold gapBelow
    split <;> omega
  show (((4 * m - gapBelow m e) * unit e : Nat) : Rat) * _ = _
  rw [Nat.cast_mul, mul_assoc, Nat.cast_sub hgap]
  push_cast
  exact congrArg _ (unit_mul e)

/-- The upper end lies half a gap above it. -/
theorem point_upper : (ofParts m e).point (ofParts m e).upper = (4 * m + 2) * 2 ^ (e - 2) := by
  show (((4 * m + 2) * unit e : Nat) : Rat) * _ = _
  rw [Nat.cast_mul, mul_assoc]
  push_cast
  exact congrArg _ (unit_mul e)

/-- The ends belong to the interval if ties are rounded to the number. -/
theorem holds_iff : i.holds n = true ↔
    (i.lower < n ∧ n < i.upper) ∨ i.closed = true ∧ (n = i.lower ∨ n = i.upper) := by
  simp [holds]

/-- The points of a value's interval round to it. -/
theorem roundsTo_of_holds (hm : 0 < m) (h : (ofParts m e).holds n = true) :
    RoundsTo ((ofParts m e).point n) m e := by
  have hlt : ∀ a b : Nat, a < b → (ofParts m e).point a < (ofParts m e).point b := fun a b hab =>
    mul_lt_mul_of_pos_right (by exact_mod_cast hab) (by positivity)
  have hwide : (4 * m - gapBelow m e) * 2 ^ (e - 2) ≤ ((4 * m + 2) * 2 ^ (e - 2) : Rat) :=
    (roundsTo_self m e).lower.trans (roundsTo_self m e).upper
  rcases holds_iff.1 h with ⟨hlower, hupper⟩ | ⟨hclosed, hmiddle⟩
  · have hlow := hlt _ _ hlower
    have hhigh := hlt _ _ hupper
    rw [point_lower hm] at hlow
    rw [point_upper] at hhigh
    exact ⟨hlow.le, hhigh.le, fun _ => ⟨hlow, hhigh⟩⟩
  · -- The middles of the gaps count only for an even significand.
    have heven : m % 2 = 0 := eq_of_beq hclosed
    rcases hmiddle with rfl | rfl
    · rw [point_lower hm]
      exact ⟨le_rfl, hwide, fun hodd => by omega⟩
    · rw [point_upper]
      exact ⟨hwide, le_rfl, fun hodd => by omega⟩

/-- A value is in its own interval. -/
theorem holds_value (hm : 0 < m) : (ofParts m e).holds (ofParts m e).value = true := by
  have hunit : 0 < unit e := by
    unfold unit
    simp only [Nat.pow_eq]
    split <;> positivity
  have hgap : 0 < gapBelow m e := by
    unfold gapBelow
    split <;> decide
  refine holds_iff.2 (Or.inl ⟨?_, ?_⟩)
  · show (4 * m - gapBelow m e) * unit e < 4 * m * unit e
    exact Nat.mul_lt_mul_of_pos_right (by omega) hunit
  · show 4 * m * unit e < (4 * m + 2) * unit e
    exact Nat.mul_lt_mul_of_pos_right (by omega) hunit

/-- A decimal that is found on a grid is a point of the interval. -/
theorem onGrid?_eq_some {d : Decimal} (h : i.onGrid? t drop = some d) :
    ∃ n, i.holds n = true ∧ d.value = i.point n := by
  unfold onGrid? at h
  simp only [Nat.pow_eq] at h
  split at h
  case isTrue hlow =>
    cases h
    exact ⟨_, (Bool.and_eq_true_iff.1 hlow).1, Decimal.value_shift _ drop (-i.places)⟩
  case isFalse =>
    split at h
    case isTrue hhigh =>
      cases h
      exact ⟨_, hhigh, Decimal.value_shift _ drop (-i.places)⟩
    case isFalse => cases h

/-- The search ends at a point of the interval, at the latest at the value itself. -/
theorem exists_search (hvalue : i.holds i.value = true) (t : Tie) (drop : Nat) :
    ∃ n, i.holds n = true ∧ (i.search t drop).value = i.point n := by
  induction drop with
  | zero =>
    rw [search]
    cases hgrid : i.onGrid? t 0 with
    | some d => exact onGrid?_eq_some hgrid
    | none => exact ⟨_, hvalue, rfl⟩
  | succ drop ih =>
    rw [search]
    cases hgrid : i.onGrid? t (drop + 1) with
    | some d => exact onGrid?_eq_some hgrid
    | none => exact ih

end Interval

/-- The shortest decimal of a value rounds to it. -/
theorem roundsTo_shortest {m : Nat} (t : Tie) (hm : 0 < m) (e : Int) :
    RoundsTo (shortest t m e).value m e := by
  obtain ⟨n, hn, hvalue⟩ := Interval.exists_search (Interval.holds_value (e := e) hm) t
    (digitCount (Interval.ofParts m e).value - 1)
  rw [shortest, Decimal.value_normalize, hvalue]
  exact Interval.roundsTo_of_holds hm hn

/-! ## Digits -/

/-- Zeros behind a number multiply it by powers of ten. -/
theorem readOn_zeros (acc n : Nat) :
    readOn 10 acc (List.replicate n '0') = some (acc * 10 ^ n) := by
  induction n generalizing acc with
  | zero => rw [pow_zero, mul_one]; rfl
  | succ n ih =>
    have hzero : digitValue? 10 '0' = some 0 := by decide
    rw [List.replicate_succ, readOn, hzero, Option.bind_some, Nat.add_zero, ih, pow_succ']
    exact congrArg some (by ring)

/-- The value of the digits of a count behind and in front of zeros. -/
theorem digitsValue_zeros (c a b : Nat) :
    digitsValue (List.replicate a '0' ++ Nat.toDigits 10 c ++ List.replicate b '0') =
      c * 10 ^ b := by
  rw [digitsValue, readOn_append, readOn_append, readOn_zeros, Option.bind_some, zero_mul,
    readOn_toDigits, Option.bind_some, readOn_zeros, Option.getD_some]

/-- Whether a text holds digits only. -/
def AllDigits (s : List Char) : Prop := ∀ c ∈ s, isDigit c = true

/-- Digits behind digits are digits. -/
theorem AllDigits.append {s t : List Char} (hs : AllDigits s) (ht : AllDigits t) :
    AllDigits (s ++ t) :=
  fun c hc => (List.mem_append.1 hc).elim (hs c) (ht c)

/-- Zeros are digits. -/
theorem allDigits_zeros (n : Nat) : AllDigits (List.replicate n '0') := by
  intro c hc
  rw [List.eq_of_mem_replicate hc]
  decide

/-- Digits with a point in front of the decimals, if there are any. -/
def pointed (whole decimals : List Char) : List Char :=
  whole ++ if decimals.isEmpty then [] else '.' :: decimals

/-- Whether a text is made of digits, with a point among them or not, and which number it is of. -/
structure IsPointed (s whole decimals : List Char) (v : Rat) : Prop where
  text : s = pointed whole decimals
  whole_ne_nil : whole ≠ []
  whole_digits : AllDigits whole
  decimals_digits : AllDigits decimals
  value : (digitsValue (whole ++ decimals) : Rat) * 10 ^ (-(decimals.length : Int)) = v

/-- Without decimals there is no point. -/
theorem pointed_nil (whole : List Char) : pointed whole [] = whole := List.append_nil whole

/-- With decimals there is a point. -/
theorem pointed_of_ne_nil (whole : List Char) {decimals : List Char} (h : decimals ≠ []) :
    pointed whole decimals = whole ++ '.' :: decimals := by
  rw [pointed, if_neg (by rwa [List.isEmpty_iff])]

section Texts

variable {whole decimals s rest : List Char}

/-- Digits are read up to what is no digit. -/
theorem takeDigits_of_allDigits (hs : AllDigits s) (hrest : ∀ c ∈ rest.head?, isDigit c = false) :
    takeDigits (s ++ rest) = (s, rest) := by
  have hstop : rest.takeWhile isDigit = [] ∧ rest.dropWhile isDigit = rest := by
    cases rest with
    | nil => exact ⟨rfl, rfl⟩
    | cons c rest =>
      have hc : ¬ isDigit c = true := by rw [hrest c rfl]; exact Bool.false_ne_true
      exact ⟨List.takeWhile_cons_of_neg hc, List.dropWhile_cons_of_neg hc⟩
  rw [takeDigits, List.takeWhile_append_of_pos hs, List.dropWhile_append_of_pos hs, hstop.1,
    hstop.2, List.append_nil]

/-- A text that begins with a digit is none of the words. -/
theorem lower_ne_of_digit {c : Char} (hc : isDigit c = true) (s : List Char) {w : List Char}
    (hw : w.head?.any isDigit = false) : Text.lower (c :: s) ≠ w := by
  have hsmall : Text.lowerChar c = c := by
    refine if_neg fun hcapital => ?_
    have hnine : c ≤ '9' := of_decide_eq_true (Bool.and_eq_true_iff.1 hc).2
    exact absurd (hcapital.1.trans hnine) (by decide)
  rintro rfl
  have hfalse : isDigit (Text.lowerChar c) = false := hw
  rw [hsmall, hc] at hfalse
  cases hfalse

/-- What follows the digits in front: decimals behind a point, if there is one, and the rest. -/
def decimalsPart (s : List Char) : List Char × List Char :=
  if s.head? = some '.' then takeDigits s.tail else ([], s)

/-- How a magnitude is read that begins with a digit. -/
theorem readMagnitude_of_digit {digits : List Char} (hs : ∃ c ∈ s.head?, isDigit c = true)
    (htake : takeDigits s = (digits, rest)) :
    readMagnitude s = (readExponent (decimalsPart rest).2).map fun e =>
      nearest (digitsValue (digits ++ (decimalsPart rest).1))
        (e - (decimalsPart rest).1.length) := by
  obtain ⟨c, hc, hdigit⟩ := hs
  obtain ⟨s, rfl⟩ := List.head?_eq_some_iff.1 hc
  have hinf := lower_ne_of_digit hdigit s (w := "inf".toList) (by decide)
  have hinfinity := lower_ne_of_digit hdigit s (w := "infinity".toList) (by decide)
  have hnan := lower_ne_of_digit hdigit s (w := "nan".toList) (by decide)
  have hwhole : digits.isEmpty = false := by
    rw [takeDigits, List.takeWhile_cons_of_pos hdigit] at htake
    rw [← (Prod.mk.inj htake).1]
    rfl
  unfold readMagnitude
  simp only [hinf, hinfinity, hnan, or_self, if_false, htake, hwhole, Bool.false_eq_true, false_and]
  cases rest with
  | nil => rfl
  | cons d rest =>
    by_cases hd : d = '.'
    · subst hd
      rfl
    · simp [decimalsPart, hd]

namespace IsPointed

variable {v : Rat}

/-- A number is written in digits and a point. -/
theorem isDigit_or_eq (h : IsPointed s whole decimals v) :
    ∀ c ∈ s, isDigit c = true ∨ c = '.' := by
  intro c hc
  rw [h.text, pointed, List.mem_append] at hc
  rcases hc with hc | hc
  · exact Or.inl (h.whole_digits c hc)
  · split at hc
    · cases hc
    · rcases List.mem_cons.1 hc with rfl | hc
      · exact Or.inr rfl
      · exact Or.inl (h.decimals_digits c hc)

/-- A number with a point is read as the nearest one to its digits. -/
theorem readMagnitude_eq (h : IsPointed s whole decimals v) :
    readMagnitude s =
      some (nearest (digitsValue (whole ++ decimals)) (-(decimals.length : Int))) := by
  obtain ⟨rfl, hne, hwhole, hdecimals, -⟩ := h
  have hfront : ∃ c ∈ (pointed whole decimals).head?, isDigit c = true := by
    obtain ⟨c, more, hfirst⟩ := List.exists_cons_of_ne_nil hne
    refine ⟨c, ?_, hwhole c (hfirst ▸ List.mem_cons_self)⟩
    rw [pointed, hfirst]
    rfl
  have htake : takeDigits (pointed whole decimals) =
      (whole, if decimals.isEmpty then [] else '.' :: decimals) := by
    refine takeDigits_of_allDigits hwhole ?_
    split
    · exact fun d hd => by cases hd
    · intro d hd
      cases hd
      decide
  rw [readMagnitude_of_digit hfront htake]
  cases decimals with
  | nil => simp [readExponent, decimalsPart]
  | cons d decimals =>
    have hall : takeDigits (d :: decimals ++ []) = (d :: decimals, []) :=
      takeDigits_of_allDigits hdecimals fun d hd => by cases hd
    rw [List.append_nil] at hall
    simp [readExponent, decimalsPart, hall]

end IsPointed

end Texts

/-- The digits of a decimal with a point among them, or beside them behind zeros. -/
theorem plain_isPointed (c : Nat) (e : Int) :
    ∃ whole decimals, IsPointed
      (plainLayout.plain (Nat.toDigits 10 c) ((Nat.toDigits 10 c).length + e)).toList
      whole decimals (Decimal.value ⟨c, e⟩) := by
  have hne : Nat.toDigits 10 c ≠ [] := Nat.toDigits_ne_nil
  have hall : AllDigits (Nat.toDigits 10 c) := fun d hd => isDigit_of_mem_toDigits hd
  have hvalue := digitsValue_zeros c
  generalize Nat.toDigits 10 c = digits at *
  unfold Layout.plain
  generalize hpoint : (digits.length : Int) + e = point
  split
  case isTrue hp =>
    -- All digits stand behind the point.
    refine ⟨['0'], List.replicate (-point).toNat '0' ++ digits, ?_, List.cons_ne_nil _ _,
      allDigits_zeros 1, (allDigits_zeros _).append hall, ?_⟩
    · rw [pointed_of_ne_nil _ (List.append_ne_nil_of_right_ne_nil _ hne), zeros]
      simp
    · have hread := hvalue ((-point).toNat + 1) 0
      rw [List.replicate_succ, List.replicate_zero, List.append_nil, pow_zero, mul_one] at hread
      have hexponent : (-((List.replicate (-point).toNat '0' ++ digits).length : Int)) = e := by
        rw [List.length_append, List.length_replicate]
        omega
      rw [hexponent, List.singleton_append, ← List.cons_append, hread]
      rfl
  case isFalse hp =>
    dsimp only
    split
    case isTrue hlength =>
      -- No digit does.
      refine ⟨digits ++ List.replicate (point.toNat - digits.length) '0', [], ?_,
        List.append_ne_nil_of_left_ne_nil hne _, hall.append (allDigits_zeros _),
        allDigits_zeros 0, ?_⟩
      · rw [pointed_nil, zeros]
        simp [plainLayout]
      · have hread := hvalue 0 (point.toNat - digits.length)
        rw [List.replicate_zero, List.nil_append] at hread
        have hexponent : e = (point.toNat - digits.length : Nat) + 0 := by omega
        rw [List.append_nil, hread, hexponent, Decimal.value_shift]
        rfl
    case isFalse hlength =>
      have hrest : digits.drop point.toNat ≠ [] := by
        rwa [Ne, List.drop_eq_nil_iff]
      have hfirst : digits.take point.toNat ≠ [] := by
        rw [Ne, List.take_eq_nil_iff]
        rintro (hzero | hnil)
        · omega
        · exact hne hnil
      refine ⟨digits.take point.toNat, digits.drop point.toNat, ?_, hfirst,
        fun d hd => hall d (List.mem_of_mem_take hd),
        fun d hd => hall d (List.mem_of_mem_drop hd), ?_⟩
      · rw [pointed_of_ne_nil _ hrest]
        simp
      · have hread := hvalue 0 0
        rw [List.replicate_zero, List.nil_append, List.append_nil, pow_zero, mul_one] at hread
        have hexponent : (-((digits.drop point.toNat).length : Int)) = e := by
          rw [List.length_drop]
          omega
        rw [hexponent, List.take_append_drop, hread]
        rfl

/-- The plain text of a decimal is of the number that the decimal stands for. -/
theorem decimal_isPointed (d : Decimal) :
    ∃ whole decimals, IsPointed (plainLayout.decimal d).toList whole decimals d.value := by
  unfold Layout.decimal
  split
  case isTrue hzero =>
    refine ⟨['0'], [], rfl, List.cons_ne_nil _ _, allDigits_zeros 1, allDigits_zeros 0, ?_⟩
    have hread : digitsValue (['0'] ++ []) = 0 := by decide
    rw [hread, Decimal.value, hzero, Nat.cast_zero, zero_mul, zero_mul]
  case isFalse hne =>
    exact plain_isPointed d.coefficient d.exponent

/-! ## Values -/

/-- The text of the magnitude of a finite value. -/
def magnitudeText (m : Nat) (e : Int) : String :=
  if m = 0 then plainLayout.decimal ⟨0, 0⟩ else plainLayout.decimal (shortest plainLayout.tie m e)

/-- The text of a sign. -/
def signText (negative : Bool) : String := if negative then "-" else ""

/-- The text of a number, case by case. -/
theorem plainText_eq (x : Float) : plainText x =
    match parts x with
    | .nan => "NaN"
    | .infinite negative => signText negative ++ "inf"
    | .finite negative m e => signText negative ++ magnitudeText m e := rfl

/-- The text of a magnitude holds digits and points only, and is read to that magnitude. -/
theorem readMagnitude_magnitudeText {x : Float} {negative : Bool} {m : Nat} {e : Int}
    (h : parts x = .finite negative m e) :
    (∀ c ∈ (magnitudeText m e).toList, isDigit c = true ∨ c = '.') ∧
      ∃ y, readMagnitude (magnitudeText m e).toList = some y ∧ parts y = .finite false m e := by
  -- Zero is written as it is; any other magnitude as a decimal that rounds back to it.
  obtain ⟨d, htext, hvalue⟩ : ∃ d, magnitudeText m e = plainLayout.decimal d ∧
      (if m = 0 then d.value = 0 else RoundsTo d.value m e) := by
    unfold magnitudeText
    split
    case isTrue => exact ⟨⟨0, 0⟩, rfl, zero_mul _⟩
    case isFalse hm => exact ⟨_, rfl, roundsTo_shortest _ (Nat.pos_of_ne_zero hm) e⟩
  obtain ⟨whole, decimals, hpointed⟩ := decimal_isPointed d
  rw [htext]
  refine ⟨hpointed.isDigit_or_eq, _, hpointed.readMagnitude_eq, ?_⟩
  rw [← hpointed.value] at hvalue
  generalize digitsValue (whole ++ decimals) = c at hvalue
  split at hvalue
  case isTrue hm =>
    have hc : c = 0 := by
      have hten : (10 : Rat) ^ (-(decimals.length : Int)) ≠ 0 := by positivity
      exact_mod_cast (mul_eq_zero.1 hvalue).resolve_right hten
    subst hm
    have hzero : parts 0.0 = .finite false 0 (-1074) := by decide
    rw [hc, exponent_of_parts_zero h, ← hzero]
    rfl
  case isFalse hm =>
    have hcanonical := isCanonical_of_parts h (Nat.pos_of_ne_zero hm)
    have hc : 0 < c := by
      refine Nat.pos_of_ne_zero fun hzero => ?_
      have hge := hvalue.ge hcanonical
      rw [hzero, Nat.cast_zero, zero_mul] at hge
      exact absurd hge (not_le.2 (two_zpow_pos _))
    exact parts_nearest hc hcanonical hvalue

/-- A text that does not begin with a sign is read as a magnitude. -/
theorem readNumber_of_unsigned {s : List Char} (hminus : s.head? ≠ some '-')
    (hplus : s.head? ≠ some '+') : readNumber s = readMagnitude s := by
  unfold readNumber
  split
  · exact absurd rfl hminus
  · exact absurd rfl hplus
  · rfl

/-- **The plain text of a number is read to that number.** -/
theorem readNumber_plainText (x : Float) : readNumber (plainText x).toList = some x := by
  -- It is enough to find the same parts again, as they determine the number.
  suffices hread : ∃ y, readNumber (plainText x).toList = some y ∧ parts y = parts x by
    obtain ⟨y, hy, hparts⟩ := hread
    rw [hy, parts_injective hparts]
  rw [plainText_eq]
  cases h : parts x with
  | nan => exact ⟨0.0 / 0.0, rfl, by decide⟩
  | infinite negative =>
    cases negative with
    | true => exact ⟨-(1.0 / 0.0), rfl, by decide⟩
    | false => exact ⟨1.0 / 0.0, rfl, by decide⟩
  | finite negative m e =>
    obtain ⟨hchars, y, hread, hy⟩ := readMagnitude_magnitudeText h
    cases negative with
    | true =>
      refine ⟨-y, ?_, ?_⟩
      · have htext : (signText true ++ magnitudeText m e).toList =
            '-' :: (magnitudeText m e).toList := String.toList_append
        show readNumber (signText true ++ magnitudeText m e).toList = _
        rw [htext, readNumber, hread]
        rfl
      · rw [parts_neg, hy]
        rfl
    | false =>
      refine ⟨y, ?_, hy⟩
      -- Without a sign in front nothing in the text can be taken for one.
      have hsign (c : Char) (hc : isDigit c = false ∧ c ≠ '.') :
          (magnitudeText m e).toList.head? ≠ some c := by
        intro hhead
        rcases hchars c (List.mem_of_mem_head? hhead) with hdigit | rfl
        · rw [hc.1] at hdigit
          cases hdigit
        · exact hc.2 rfl
      show readNumber (signText false ++ magnitudeText m e).toList = _
      rw [signText, if_neg Bool.false_ne_true, String.empty_append,
        readNumber_of_unsigned (hsign '-' (by decide)) (hsign '+' (by decide)), hread]

/-- Whether a character is a digit, a point, a minus sign or a letter of one of the two words. -/
def isPlainChar (c : Char) : Bool := isDigit c || ['.', '-', 'i', 'n', 'f', 'N', 'a'].contains c

/-- A number is written in plain characters. -/
theorem plainText_chars (x : Float) : ∀ c ∈ (plainText x).toList, isPlainChar c = true := by
  have hsign : ∀ negative, (signText negative).toList.all isPlainChar = true := by decide
  rw [← List.all_eq_true, plainText_eq]
  cases h : parts x with
  | nan => decide
  | infinite negative =>
    have hword : "inf".toList.all isPlainChar = true := by decide
    rw [String.toList_append, List.all_append, hsign, hword]
    rfl
  | finite negative m e =>
    have hmagnitude : (magnitudeText m e).toList.all isPlainChar = true := by
      refine List.all_eq_true.2 fun c hc => ?_
      rcases (readMagnitude_magnitudeText h).1 c hc with hdigit | rfl
      · rw [isPlainChar, hdigit]
        rfl
      · decide
    rw [String.toList_append, List.all_append, hsign, hmagnitude]
    rfl

end LoadReplay.Number
