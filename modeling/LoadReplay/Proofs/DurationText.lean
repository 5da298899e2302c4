import LoadReplay.Proofs.CompoundReading
import LoadReplay.Proofs.PlainText
import LoadReplay.Span.Reader

/-!
# Durations in text, whatever the text

A text is read as a number of seconds if it is a number, and as amounts otherwise.  What is longer
than a span can be is refused with an error that quotes the text, in either form.  Only one sum is
not refused: amounts that leave the very last second and are then brought to its end by nanoseconds
(`Overflows`), where reading stops without an error.

## Shape of the proof

Amounts in a known unit are no number (`readNumber_amount`): behind its first digits a number goes
on with a point or an exponent, and no unit begins like one.  So a text that overflows is not taken
for a number first.  A number of seconds is rounded to nanoseconds, which never takes it below the
range that it is above (`ofSeconds?_eq_none`).

Main statement: `Span.read_outcome`.
-/

namespace LoadReplay

open Text

/-! ## Texts that are no numbers -/

namespace Number

variable {s rest digits : List Char}

/-- Whether a text begins with something else than an exponent. -/
def NoExponent (s : List Char) : Prop := ∃ c ∈ s.head?, c ≠ 'e' ∧ c ≠ 'E'

/-- Where no exponent can be, none is read. -/
theorem NoExponent.readExponent_eq (h : NoExponent s) : readExponent s = none := by
  obtain ⟨c, hc, hne⟩ := h
  obtain ⟨rest, rfl⟩ := List.head?_eq_some_iff.1 hc
  simp [readExponent, hne]

/-- Behind a blank there is no exponent. -/
theorem noExponent_of_isBlank {c : Char} (h : isBlank c = true) (s : List Char) :
    NoExponent (c :: s) := by
  refine ⟨c, rfl, ?_, ?_⟩ <;> rintro rfl <;> exact absurd h (by decide)

/-- What begins with a digit is read without a sign. -/
theorem readNumber_of_digit (hs : ∃ c ∈ s.head?, isDigit c = true) :
    readNumber s = readMagnitude s := by
  obtain ⟨c, hc, hdigit⟩ := hs
  rw [Option.mem_def] at hc
  refine readNumber_of_unsigned ?_ ?_ <;>
  · rw [hc]
    rintro ⟨⟩
    exact absurd hdigit (by decide)

/-- Digits with something else behind them are no number. -/
theorem readNumber_eq_none (hs : ∃ c ∈ s.head?, isDigit c = true)
    (htake : takeDigits s = (digits, rest)) (hpoint : rest.head? ≠ some '.')
    (hrest : NoExponent rest) : readNumber s = none := by
  rw [readNumber_of_digit hs, readMagnitude_of_digit hs htake, decimalsPart, if_neg hpoint,
    hrest.readExponent_eq, Option.map_none]

/-- Nor are digits with a point, decimals and something else behind them. -/
theorem readNumber_eq_none_of_point {decimals more : List Char}
    (hs : ∃ c ∈ s.head?, isDigit c = true) (htake : takeDigits s = (digits, '.' :: more))
    (htakeMore : takeDigits more = (decimals, rest)) (hrest : NoExponent rest) :
    readNumber s = none := by
  have hpart : decimalsPart ('.' :: more) = (decimals, rest) := htakeMore
  rw [readNumber_of_digit hs, readMagnitude_of_digit hs htake, hpart, hrest.readExponent_eq,
    Option.map_none]

end Number

namespace Span

namespace Compound

open Number

/-- Only blanks can keep some of a numeral from being taken. -/
theorem takeDigits_numeral {w rest : List Char} (hw : IsNumeral w)
    (hrest : ∀ c ∈ rest.head?, isDigit c = false) :
    takeDigits (w ++ rest) = (w, rest) ∨
      ∃ digits b more, isBlank b = true ∧ takeDigits (w ++ rest) = (digits, b :: more) := by
  by_cases hall : AllDigits w
  · exact Or.inl (takeDigits_of_allDigits hall hrest)
  right
  cases hdrop : w.dropWhile isDigit with
  | nil => exact absurd (fun c hc => List.dropWhile_eq_nil_iff.1 hdrop c hc) hall
  | cons b more =>
    have hb : isDigit b = false := by
      have hnot := List.head?_dropWhile_not isDigit w
      rw [hdrop] at hnot
      simpa using hnot
    have hmem : b ∈ w := (List.dropWhile_suffix isDigit).mem (hdrop ▸ List.mem_cons_self)
    have hblank : isBlank b = true :=
      (hw b hmem).resolve_left (by rw [hb]; exact Bool.false_ne_true)
    refine ⟨_, b, more ++ rest, hblank, Prod.ext rfl ?_⟩
    show (w ++ rest).dropWhile isDigit = _
    rw [List.dropWhile_append, hdrop]
    rfl

/-- No unit begins like an exponent. -/
theorem Unit.noExponent {name : String} {u : Unit} (h : ofText? name = some u) :
    NoExponent name.toList := by
  suffices hany : name.toList.head?.any (fun c => c ≠ 'e' ∧ c ≠ 'E') = true by
    obtain ⟨c, hc, hne⟩ := (Option.any_eq_true _ _).1 hany
    exact ⟨c, hc, of_decide_eq_true hne⟩
  have hspelled {names : List String} (hname : name ∈ names)
      (hall : names.all fun n => n.toList.head?.any fun c => c ≠ 'e' ∧ c ≠ 'E') :=
    List.all_eq_true.1 hall name hname
  unfold ofText? at h
  repeat
    rcases ite_eq_iff.1 h with ⟨hname, -⟩ | ⟨-, h⟩
    · exact hspelled hname (by decide)
  cases h

/-- Amounts in a known unit are no numbers. -/
theorem readNumber_amount (a : Amount) (hgap : a.gap = []) (hunit : a.unit?.isSome = true)
    (rest : List Char) : readNumber (a.chars ++ rest) = none := by
  obtain ⟨u, hu⟩ := Option.isSome_iff_exists.1 hunit
  obtain ⟨b, letters, hletters⟩ := List.exists_cons_of_ne_nil a.unit_ne_nil
  have hb : isUnitLetter b = true := a.unit_letters b (hletters ▸ List.mem_cons_self)
  -- What stands behind the digits, a letter, a blank or a point, ends the number that is read.
  have hnotDigit : ∀ c ∈ (a.unit ++ rest).head?, isDigit c = false := by
    rw [hletters]
    rintro c ⟨⟩
    exact isDigit_of_isUnitLetter hb
  have hexponent : NoExponent (a.unit ++ rest) := by
    have hname := Unit.noExponent hu
    rw [String.toList_ofList, hletters] at hname
    rw [hletters]
    exact hname
  have hchars : a.chars ++ rest = a.digits ++ (decimalsChars a.decimals ++ (a.unit ++ rest)) := by
    rw [Amount.chars, Figures.chars, hgap, List.nil_append, List.append_assoc, List.append_assoc]
  have hs : ∃ c ∈ (a.digits ++ (decimalsChars a.decimals ++ (a.unit ++ rest))).head?,
      isDigit c = true := by
    obtain ⟨c, hc, hdigit⟩ := a.front
    refine ⟨c, ?_, hdigit⟩
    rw [List.head?_append, hc]
    rfl
  have hblank {c : Char} {s : List Char} (hc : isBlank c = true) : (c :: s).head? ≠ some '.' := by
    rintro ⟨⟩
    exact absurd hc (by decide)
  rw [hchars]
  -- The rest that is left over is never empty and never an exponent, so the whole is not a number.
  cases hdecimals : a.decimals with
  | none =>
    rw [hdecimals] at hs
    rcases takeDigits_numeral a.isNumeral hnotDigit with htake | ⟨_, c, more, hc, htake⟩
    · refine readNumber_eq_none hs htake ?_ hexponent
      rw [hletters]
      rintro ⟨⟩
      exact absurd hb (by decide)
    · exact readNumber_eq_none hs htake (hblank hc) (noExponent_of_isBlank hc more)
  | some w =>
    rw [hdecimals] at hs
    have hpoint : ∀ c ∈ ('.' :: (w ++ (a.unit ++ rest))).head?, isDigit c = false := by
      rintro c ⟨⟩
      decide
    rcases takeDigits_numeral a.isNumeral hpoint with htake | ⟨_, c, more, hc, htake⟩
    · rcases takeDigits_numeral (a.decimals_isNumeral w hdecimals).1 hnotDigit with
        hmore | ⟨_, c, more, hc, hmore⟩
      · exact readNumber_eq_none_of_point hs htake hmore hexponent
      · exact readNumber_eq_none_of_point hs htake hmore (noExponent_of_isBlank hc more)
    · exact readNumber_eq_none hs htake (hblank hc) (noExponent_of_isBlank hc more)

/-! ## Overflow -/

/-- Whether amounts at the front of a text overflow: those before the last are added up, and the
last one, or its decimals, are nanoseconds that just end the last second. -/
def Overflows (s : List Char) : Prop :=
  ∃ l a rest t, s = text l ++ (a.chars ++ rest) ∧ EndsUnit rest ∧
    addAll Span.zero l = .ok t ∧ Amount.Overfills t a

/-- **Reading amounts overflows exactly where the text does.** -/
theorem read_eq_overflow_iff {s : List Char} : read s = .error .overflow ↔ Overflows s := by
  rw [read_eq_overflow]
  constructor
  · rintro ⟨l, rest, hrest, rfl, hall⟩
    obtain ⟨l₁, a, l₂, t, rfl, hsum, ha⟩ := addAll_eq_overflow.1 hall
    refine ⟨l₁, a, text l₂ ++ rest, t, ?_, endsUnit_text l₂ hrest, hsum, ha⟩
    rw [text, List.flatMap_append, List.flatMap_cons, List.append_assoc, List.append_assoc]
    rfl
  · rintro ⟨l, a, rest, t, rfl, hrest, hsum, ha⟩
    refine ⟨l ++ [a], rest, hrest, ?_, addAll_eq_overflow.2 ⟨l, a, [], t, rfl, hsum, ha⟩⟩
    rw [text_concat, List.append_assoc]

/-- **What overflows is too long for a span.** -/
theorem Overflows.exceeds {s : List Char} (h : Overflows s) :
    ∃ l rest, s = text l ++ rest ∧ EndsUnit rest ∧
      (2 ^ 64 * 1_000_000_000 : Rat) ≤ (l.map Amount.nanos).sum := by
  obtain ⟨l, a, rest, t, rfl, hrest, hsum, -, u, hu, hfull⟩ := h
  refine ⟨l ++ [a], rest, by rw [text_concat, List.append_assoc], hrest, ?_⟩
  have hexact := exact_of_addAll hsum
  have hexceeds := hfull.exceeds
  rw [nanos_zero, Nat.cast_zero, zero_add] at hexact
  rw [List.map_append, List.sum_append, List.map_singleton, List.sum_singleton, ← hexact,
    Amount.nanos, hu, Option.elim_some]
  exact hexceeds

/-- An amount is written in at least a digit and a letter. -/
theorem Amount.chars_ne_nil (a : Amount) : a.chars ≠ [] := by
  obtain ⟨c, hc, -⟩ := a.front
  obtain ⟨more, hdigits⟩ := List.head?_eq_some_iff.1 hc
  rw [Amount.chars, Figures.chars, hdigits]
  simp

/-- A trimmed text has no gap in front of its first amount. -/
theorem gap_eq_nil {a : Amount} {rest : List Char} (h : IsTrimmed (a.chars ++ rest)) :
    a.gap = [] := by
  cases hgap : a.gap with
  | nil => rfl
  | cons c gap =>
    have hfront : isBlank c = false := h.front c (by
      rw [Amount.chars, Figures.chars, hgap]
      rfl)
    rw [a.gap_blank c (hgap ▸ List.mem_cons_self)] at hfront
    cases hfront

/-- A text that overflows is no number. -/
theorem Overflows.readNumber_eq {s : List Char} (h : Overflows s) (htrim : IsTrimmed s) :
    readNumber s = none := by
  obtain ⟨l, a, rest, t, rfl, hrest, hsum, -, u, hu, -⟩ := h
  cases l with
  | nil =>
    have hunit : a.unit?.isSome = true := by rw [hu]; rfl
    exact readNumber_amount a (gap_eq_nil htrim) hunit rest
  | cons b l =>
    rw [text_cons, List.append_assoc] at htrim ⊢
    have hunit : b.unit?.isSome = true := by
      rw [addAll, List.foldlM_cons] at hsum
      obtain ⟨next, hfirst, -⟩ := bind_eq_ok.1 hsum
      rw [Amount.addTo] at hfirst
      split at hfirst
      · obtain ⟨v, _, hv, -⟩ := addUnits_eq_ok hfirst
        rw [Amount.unit?, hv]
        rfl
      · cases hfirst
    exact readNumber_amount b (gap_eq_nil htrim) hunit _

end Compound

/-! ## Numbers of seconds -/

section Seconds

open Number

variable {m : Nat} {e : Int}

/-- No fraction is divided by zero. -/
theorem fraction_pos (m : Nat) (e : Int) : 0 < (fraction m e).2 := by
  cases e with
  | ofNat k => exact Nat.one_pos
  | negSucc k => exact Nat.two_pow_pos (k + 1)

/-- A fraction is its mantissa times its power of two. -/
theorem fraction_eq (m : Nat) (e : Int) :
    ((fraction m e).1 : Rat) = m * 2 ^ e * (fraction m e).2 := by
  cases e with
  | ofNat k =>
    show ((m * Nat.pow 2 k : Nat) : Rat) = m * 2 ^ ((k : Nat) : Int) * (1 : Nat)
    rw [Nat.pow_eq, zpow_natCast]
    push_cast
    ring
  | negSucc k =>
    show (m : Rat) = m * 2 ^ (Int.negSucc k) * (Nat.pow 2 (k + 1) : Nat)
    rw [Nat.pow_eq, zpow_negSucc]
    push_cast
    field_simp

/-- Whether a number is one of seconds that there are. -/
def IsSeconds (x : Float) : Prop :=
  ∃ negative m e, parts x = .finite negative m e ∧ (negative = true → m = 0) ∧
    (m * 2 ^ e : Rat) < 2 ^ 64

/-- Rounding to nanoseconds does not take a number into the range of spans. -/
theorem ofSeconds?_eq_none {x : Float} (h : ¬ IsSeconds x) : ofSeconds? x = none := by
  unfold ofSeconds?
  cases hx : parts x with
  | nan => rfl
  | infinite negative => rfl
  | finite negative m e =>
    dsimp only
    split
    · rfl
    rename_i hsign
    have hlong : (2 ^ 64 : Rat) ≤ m * 2 ^ e := by
      refine not_lt.1 fun hlt => h ⟨negative, m, e, hx, fun hn => ?_, hlt⟩
      exact not_not.1 fun hm => hsign ⟨hn, hm⟩
    have hpos := fraction_pos m e
    have hparts : 2 ^ 64 * (fraction m e).2 ≤ (fraction m e).1 := by
      have hmul := mul_le_mul_of_nonneg_right hlong (Nat.cast_nonneg (fraction m e).2)
      rw [← fraction_eq] at hmul
      exact_mod_cast hmul
    have hnear := (divNearest_near ((fraction m e).1 * 1_000_000_000) _ hpos).1
    have hmax : maxNanos + 1 = 2 ^ 64 * 1_000_000_000 := rfl
    generalize divNearest ((fraction m e).1 * 1_000_000_000) (fraction m e).2 = nanos at hnear ⊢
    refine dif_neg fun hle => ?_
    have hless : (nanos + 1) * (fraction m e).2 ≤ 2 ^ 64 * 1_000_000_000 * (fraction m e).2 :=
      Nat.mul_le_mul_right _ (by omega)
    rw [Nat.add_mul, Nat.one_mul] at hless
    omega

end Seconds

/-! ## Outcomes -/

section Outcomes

open Number Compound

variable {s : List Char}

/-- A text that is a number is a number of seconds. -/
theorem readTrimmed_of_number {x : Float} (hx : readNumber s = some x) :
    readTrimmed s =
      (ofSeconds? x).elim (.error (.error (.invalid (String.ofList s)))) Except.ok := by
  cases s with
  | nil => cases hx
  | cons c s =>
    simp only [readTrimmed, hx, List.isEmpty_cons, Bool.false_eq_true, if_false]
    cases ofSeconds? x <;> rfl

/-- Any other text that is not empty is read as amounts. -/
theorem readTrimmed_of_not_number (hne : s ≠ []) (hx : readNumber s = none) :
    readTrimmed s =
      (Compound.read s).mapError fun f => f.map (.malformed (String.ofList s)) := by
  rw [readTrimmed, if_neg (by rwa [List.isEmpty_iff]), hx]
  cases Compound.read s <;> rfl

/-- A trimmed text overflows exactly if it does as amounts: a number of seconds is checked. -/
theorem readTrimmed_eq_overflow (hs : IsTrimmed s) :
    readTrimmed s = .error .overflow ↔ Overflows s := by
  rw [← read_eq_overflow_iff]
  constructor
  · intro h
    by_cases hne : s = []
    · subst hne
      cases h
    -- A number that is too great is refused with an error; only the sums of amounts can overflow.
    cases hx : readNumber s with
    | some x =>
      rw [readTrimmed_of_number hx] at h
      cases hseconds : ofSeconds? x <;> rw [hseconds] at h <;> cases h
    | none =>
      rw [readTrimmed_of_not_number hne hx] at h
      cases hread : Compound.read s with
      | ok a =>
        rw [hread] at h
        cases h
      | error f =>
        rw [hread] at h
        cases f with
        | error e => cases h
        | overflow => rfl
  · intro h
    have hne : s ≠ [] := by
      rintro rfl
      cases h
    rw [readTrimmed_of_not_number hne ((read_eq_overflow_iff.1 h).readNumber_eq hs), h]
    rfl

/-- What becomes of a text that does not overflow. -/
theorem readTrimmed_cases (h : readTrimmed s ≠ .error .overflow) :
    (∃ a, readTrimmed s = .ok a) ∨ (s = [] ∧ readTrimmed s = .error (.error .empty)) ∨
      readTrimmed s = .error (.error (.invalid (String.ofList s))) ∨
      ∃ cause, readTrimmed s = .error (.error (.malformed (String.ofList s) cause)) := by
  by_cases hne : s = []
  · subst hne
    exact Or.inr (Or.inl ⟨rfl, rfl⟩)
  cases hx : readNumber s with
  | some x =>
    rw [readTrimmed_of_number hx]
    cases ofSeconds? x with
    | some a => exact Or.inl ⟨a, rfl⟩
    | none => exact Or.inr (Or.inr (Or.inl rfl))
  | none =>
    rw [readTrimmed_of_not_number hne hx] at h ⊢
    cases hread : Compound.read s with
    | ok a => exact Or.inl ⟨a, rfl⟩
    | error f =>
      cases f with
      | error e => exact Or.inr (Or.inr (Or.inr ⟨e, rfl⟩))
      | overflow =>
        rw [hread] at h
        exact absurd rfl h

/-- Amounts that are too long together are refused for their size. -/
theorem readTrimmed_of_exceeding {l : List Amount} (hl : l ≠ [])
    (hunits : ∀ a ∈ l, a.unit?.isSome = true) (hs : IsTrimmed (Compound.text l))
    (hlong : (maxNanos : Rat) < (l.map Amount.nanos).sum) (h : ¬ Overflows (Compound.text l)) :
    readTrimmed (Compound.text l) =
      .error (.error (.malformed (String.ofList (Compound.text l)) .numberOverflow)) := by
  have hread : Compound.read (Compound.text l) = addAll Span.zero l := by
    have htext := read_text hl (List.forall_mem_nil _)
    rwa [List.append_nil] at htext
  obtain ⟨a, more, rfl⟩ := List.exists_cons_of_ne_nil hl
  have hnumber : readNumber (Compound.text (a :: more)) = none := by
    rw [text_cons] at hs ⊢
    exact readNumber_amount a (gap_eq_nil hs) (hunits a List.mem_cons_self) _
  have hne : Compound.text (a :: more) ≠ [] := by
    rw [text_cons]
    exact List.append_ne_nil_of_left_ne_nil a.chars_ne_nil _
  rw [readTrimmed_of_not_number hne hnumber, hread]
  -- The sum cannot be exact, since it is beyond the greatest span, and it does not overflow by
  -- assumption.
  cases hall : addAll Span.zero (a :: more) with
  | ok t =>
    have hexact := exact_of_addAll hall
    rw [nanos_zero, Nat.cast_zero, zero_add] at hexact
    rw [← hexact] at hlong
    exact absurd t.le_max (Nat.not_le.2 (by exact_mod_cast hlong))
  | error f =>
    cases f with
    | error e =>
      rw [addAll_eq_error hunits hall]
      rfl
    | overflow => exact absurd (read_eq_overflow_iff.1 (hread.trans hall)) h

/-- **Every text is read or refused, unless it just overflows.**  The amounts at the front of a text
overflow if they leave the very last second and nanoseconds then bring it to its end; that is all
that stops a reading without an error.  Any other text is a duration, or is empty, or is refused
with an error that quotes it.  In particular, so is a number of seconds that no span has, and so
are amounts that are longer together than any span. -/
theorem read_outcome (content : String) :
    (read content = .error .overflow ↔ Overflows (trim content.toList)) ∧
    (¬ Overflows (trim content.toList) →
      (∃ a, read content = .ok a) ∨
      (trim content.toList = [] ∧ read content = .error (.error .empty)) ∨
      read content = .error (.error (.invalid (String.ofList (trim content.toList)))) ∨
      ∃ cause, read content =
        .error (.error (.malformed (String.ofList (trim content.toList)) cause))) ∧
    (∀ x, readNumber (trim content.toList) = some x → ¬ IsSeconds x →
      read content = .error (.error (.invalid (String.ofList (trim content.toList))))) ∧
    ∀ l, l ≠ [] → (∀ a ∈ l, a.unit?.isSome = true) → trim content.toList = Compound.text l →
      (maxNanos : Rat) < (l.map Amount.nanos).sum → ¬ Overflows (trim content.toList) →
      read content =
        .error (.error (.malformed (String.ofList (trim content.toList)) .numberOverflow)) := by
  have hs := isTrimmed_trim content.toList
  have hoverflow := readTrimmed_eq_overflow hs
  refine ⟨hoverflow, fun h => readTrimmed_cases (mt hoverflow.1 h), fun x hx hlong => ?_,
    fun l hl hunits htext hlong h => ?_⟩
  · rw [read, readTrimmed_of_number hx, ofSeconds?_eq_none hlong, Option.elim_none]
  · rw [read]
    rw [htext] at hs h ⊢
    exact readTrimmed_of_exceeding hl hunits hs hlong h

/-- The last second in full, and all the nanoseconds of one more. -/
theorem read_outcome_last_second :
    read "18446744073709551615s 1000000000ns" = .error .overflow ∧
      Overflows (trim "18446744073709551615s 1000000000ns".toList) := by
  have h : read "18446744073709551615s 1000000000ns" = .error .overflow := by rfl
  exact ⟨h, (read_outcome "18446744073709551615s 1000000000ns").1.1 h⟩

end Outcomes

end Span

end LoadReplay
