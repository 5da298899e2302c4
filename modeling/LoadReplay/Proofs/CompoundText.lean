import LoadReplay.Proofs.CompoundSums
import LoadReplay.Proofs.Trimming

/-!
# Compound durations as amounts

A compound duration is a text of amounts, each a number, decimals if there are any, and a unit
(`Amount`).  Blanks stand in front of an amount and among the digits of its number, but not in its
unit, which ends at a blank, at a digit or with the text.

## Shape of the proof

The reader takes such a text one character at a time, and `Takes` says what it can do with one.
Number, decimals and unit of an amount are each read by induction on their characters
(`complete_numeral`, `complete_decimals`, `complete_letters`), from a state before the first to one
behind the last; of the positions that the reader keeps for its errors nothing has to be known
(`Is`).  Where the unit ends the amount is added, and so a text of amounts is read by adding them
up, one after another (`complete_text`).

Main statement: `read_text`.
-/

namespace LoadReplay.Span.Compound

open Text Number

/-! ## Characters -/

section Characters

variable {c : Char} {d : Nat}

/-- What has a value is a digit. -/
theorem isDigit_of_digitValue? (h : digitValue? 10 c = some d) : isDigit c = true :=
  (digitValue?_eq_some.1 h).1

/-- The value of a digit is less than ten. -/
theorem digitValue?_lt (h : digitValue? 10 c = some d) : d < 10 :=
  of_decide_eq_true (Option.filter_eq_some_iff.1 h).2

/-- Every digit has a value. -/
theorem exists_digitValue? (h : isDigit c = true) : ∃ d, digitValue? 10 c = some d :=
  ⟨_, digitValue?_eq_some.2 ⟨h, rfl⟩⟩

/-- Nothing else has one. -/
theorem digitValue?_eq_none (h : isDigit c = false) : digitValue? 10 c = none := by
  cases hd : digitValue? 10 c with
  | none => rfl
  | some d =>
    rw [isDigit_of_digitValue? hd] at h
    cases h

/-- Blanks are no digits. -/
theorem isDigit_of_isBlank (h : isBlank c = true) : isDigit c = false := by
  cases hd : isDigit c with
  | false => rfl
  | true =>
    rw [isBlank_of_isDigit hd] at h
    cases h

/-- The letters of units lie behind the digits. -/
theorem toNat_of_isUnitLetter (h : isUnitLetter c = true) :
    65 ≤ c.toNat ∧ c.toNat ≤ 122 ∨ c = 'µ' := by
  simp only [isUnitLetter, Bool.or_eq_true, Bool.and_eq_true, decide_eq_true_eq, beq_iff_eq] at h
  rcases h with (⟨hlow, hhigh⟩ | ⟨hlow, hhigh⟩) | rfl
  · have hlow : 97 ≤ c.toNat := hlow
    exact Or.inl ⟨by omega, hhigh⟩
  · have hhigh : c.toNat ≤ 90 := hhigh
    exact Or.inl ⟨hlow, by omega⟩
  · exact Or.inr rfl

/-- Letters of units are no blanks. -/
theorem isBlank_of_isUnitLetter (h : isUnitLetter c = true) : isBlank c = false := by
  rcases toNat_of_isUnitLetter h with ⟨hlow, hhigh⟩ | rfl
  · exact isBlank_of_visible (by omega) (by omega)
  · decide

/-- Nor are they digits, so the first letter ends a number. -/
theorem isDigit_of_isUnitLetter (h : isUnitLetter c = true) : isDigit c = false := by
  rcases toNat_of_isUnitLetter h with ⟨hlow, -⟩ | rfl
  · rw [isDigit, Bool.and_eq_false_iff, decide_eq_false_iff_not, decide_eq_false_iff_not]
    refine Or.inr fun hnine => ?_
    have hnine : c.toNat ≤ 57 := hnine
    omega
  · decide

end Characters

/-! ## Amounts -/

/-- Whether a text holds digits, and blanks, which do not count. -/
def IsNumeral (w : List Char) : Prop := ∀ c ∈ w, isDigit c = true ∨ isBlank c = true

/-- A number, read on by one more character. -/
def readFigure (n : Nat) (c : Char) : Nat := (digitValue? 10 c).elim n fun d => n * 10 + d

/-- The number that the digits of a text stand for. -/
def numeral (w : List Char) : Nat := w.foldl readFigure 0

/-- How many digits a text has. -/
def places (w : List Char) : Nat := w.countP isDigit

section Numerals

variable {c : Char} {d : Nat} {w : List Char}

/-- A digit is put behind the number that was read. -/
theorem readFigure_of_digit (h : digitValue? 10 c = some d) (n : Nat) :
    readFigure n c = n * 10 + d := by
  rw [readFigure, h]
  rfl

/-- A blank within a number changes nothing. -/
theorem readFigure_of_blank (h : isBlank c = true) (n : Nat) : readFigure n c = n := by
  rw [readFigure, digitValue?_eq_none (isDigit_of_isBlank h)]
  rfl

/-- A number never gets less by reading on, -/
theorem le_readFigure (n : Nat) (c : Char) : n ≤ readFigure n c := by
  unfold readFigure
  cases digitValue? 10 c with
  | none => exact Nat.le_refl n
  | some d =>
    show n ≤ n * 10 + d
    omega

/-- so what does not fit at some place does not fit in the end. -/
theorem le_foldl_readFigure (n : Nat) (w : List Char) : n ≤ w.foldl readFigure n := by
  induction w generalizing n with
  | nil => exact Nat.le_refl n
  | cons c w ih => exact (le_readFigure n c).trans (ih _)

/-- A number begins with its first digit. -/
theorem numeral_cons (hd : digitValue? 10 c = some d) (w : List Char) :
    numeral (c :: w) = w.foldl readFigure d := by
  rw [numeral, List.foldl_cons, readFigure_of_digit hd, zero_mul, zero_add]

/-- Decimals with a digit have a denominator other than one. -/
theorem one_lt_ten_pow_places (h : ∃ c ∈ w, isDigit c = true) :
    1 < 10 ^ places w :=
  Nat.one_lt_pow (List.countP_pos_iff.2 h).ne' (by decide)

end Numerals

/-- The number of an amount in front of its decimals, as it is written. -/
structure Figures where
  /-- What stands in front of the number. -/
  gap : List Char
  digits : List Char
  gap_blank : ∀ c ∈ gap, isBlank c = true
  isNumeral : IsNumeral digits
  front : ∃ c ∈ digits.head?, isDigit c = true

/-- An amount, as it is written. -/
structure Amount extends Figures where
  /-- What stands between the point, if there is one, and the unit. -/
  decimals : Option (List Char)
  unit : List Char
  decimals_isNumeral : ∀ w ∈ decimals, IsNumeral w ∧ ∃ c ∈ w, isDigit c = true
  unit_letters : ∀ c ∈ unit, isUnitLetter c = true
  unit_ne_nil : unit ≠ []

/-- The text of a number. -/
def Figures.chars (f : Figures) : List Char := f.gap ++ f.digits

/-- The number of a text. -/
def Figures.count (f : Figures) : Nat := numeral f.digits

/-- The text of decimals. -/
def decimalsChars (decimals : Option (List Char)) : List Char := decimals.elim [] fun w => '.' :: w

namespace Amount

/-- The text of an amount. -/
def chars (a : Amount) : List Char := a.toFigures.chars ++ (decimalsChars a.decimals ++ a.unit)

/-- The decimals of an amount as a fraction. -/
def fraction (a : Amount) : Option Decimals := a.decimals.map fun w => ⟨numeral w, 10 ^ places w⟩

/-- Whether the numbers of an amount fit in 64 bits. -/
def Fits (a : Amount) : Prop := a.count < 2 ^ 64 ∧ ∀ d ∈ a.fraction, d.denominator < 2 ^ 64

instance (a : Amount) : Decidable a.Fits := inferInstanceAs (Decidable (_ ∧ _))

/-- Adds an amount to a total. -/
def addTo (total : Span) (a : Amount) : Except (Fault Error) Span :=
  if a.Fits then addUnits total a.count a.fraction (String.ofList a.unit)
  else .error (.error .numberOverflow)

end Amount

/-- The text of amounts. -/
def text (l : List Amount) : List Char := l.flatMap Amount.chars

/-- Letters are collected in reverse order. -/
theorem spelling_reverse (w : List Char) : spelling w.reverse = String.ofList w := by
  rw [spelling, List.reverse_reverse]

/-- Adds amounts to a total, one after another. -/
def addAll (total : Span) (l : List Amount) : Except (Fault Error) Span :=
  l.foldlM Amount.addTo total

/-- Whether a unit ends in front of a text. -/
def EndsUnit (s : List Char) : Prop := ∀ c ∈ s.head?, isDigit c = true ∨ isBlank c = true

/-- An amount begins with a gap or a digit, so it ends the unit in front of it. -/
theorem endsUnit_chars (a : Amount) (s : List Char) : EndsUnit (a.chars ++ s) := by
  obtain ⟨c, hc, hdigit⟩ := a.front
  intro b hb
  rw [Amount.chars, Figures.chars, List.append_assoc, List.append_assoc, List.head?_append,
    List.head?_append, hc] at hb
  cases hgap : a.gap with
  | nil =>
    rw [hgap] at hb
    cases hb
    exact Or.inl hdigit
  | cons d gap =>
    rw [hgap] at hb
    cases hb
    exact Or.inr (a.gap_blank _ (hgap ▸ List.mem_cons_self))

/-- The text of amounts is that of the first one and of the others. -/
theorem text_cons (a : Amount) (l : List Amount) : text (a :: l) = a.chars ++ text l :=
  List.flatMap_cons

/-- A text of amounts ends the unit in front of it, if what follows it does. -/
theorem endsUnit_text (l : List Amount) {s : List Char} (hs : EndsUnit s) :
    EndsUnit (text l ++ s) := by
  cases l with
  | nil => exact hs
  | cons a l =>
    rw [text_cons, List.append_assoc]
    exact endsUnit_chars a _

/-! ## One character -/

namespace Reading

/-- The reader behind a character that it has accepted. -/
def accept (r : Reading) (c : Char) (part : Part) : Reading :=
  { r with offset := r.offset + c.utf8Size, mark := r.offset + c.utf8Size, begun := true, part }

/-- What the reader does with a character that it takes. -/
inductive Takes (r : Reading) (c : Char) : Reading → Prop where
  | skips {start : Nat} (part : r.part = .seeking start) (blank : isBlank c = true) :
    Takes r c { r with offset := r.offset + c.utf8Size, part := .seeking start }
  | begins {start d : Nat} (part : r.part = .seeking start) (digit : digitValue? 10 c = some d) :
    Takes r c (r.accept c (.whole d))
  | counts {n d : Nat} (part : r.part = .whole n) (digit : digitValue? 10 c = some d)
    (fits : n * 10 + d < 2 ^ 64) : Takes r c (r.accept c (.whole (n * 10 + d)))
  | passes {n : Nat} (part : r.part = .whole n) (blank : isBlank c = true) :
    Takes r c (r.accept c (.whole n))
  | points {n : Nat} (part : r.part = .whole n) (point : c = '.') :
    Takes r c { r with offset := r.offset + c.utf8Size, part := .decimals n ⟨0, 1⟩ }
  | names {n : Nat} (part : r.part = .whole n) (letter : isUnitLetter c = true) :
    Takes r c (r.accept c (.unit n none [c]))
  | countsDecimal {n d : Nat} {read : Decimals} (part : r.part = .decimals n read)
    (digit : digitValue? 10 c = some d) (low : read.denominator * 10 < 2 ^ 64)
    (high : read.numerator * 10 + d < 2 ^ 64) :
    Takes r c (r.accept c (.decimals n ⟨read.numerator * 10 + d, read.denominator * 10⟩))
  | passesDecimal {n : Nat} {read : Decimals} (part : r.part = .decimals n read)
    (blank : isBlank c = true) : Takes r c (r.accept c (.decimals n read))
  | namesDecimal {n : Nat} {read : Decimals} (part : r.part = .decimals n read)
    (letter : isUnitLetter c = true) (some : read.denominator ≠ 1) :
    Takes r c (r.accept c (.unit n (.some read) [c]))
  | spells {n : Nat} {read : Option Decimals} {letters : List Char}
    (part : r.part = .unit n read letters) (letter : isUnitLetter c = true) :
    Takes r c (r.accept c (.unit n read (c :: letters)))
  | ends {n : Nat} {read : Option Decimals} {letters : List Char} {t : Span}
    (part : r.part = .unit n read letters) (blank : isBlank c = true)
    (added : addUnits r.total n read (spelling letters) = .ok t) :
    Takes r c { r.accept c (.seeking (r.offset + c.utf8Size)) with total := t }
  | renews {n d : Nat} {read : Option Decimals} {letters : List Char} {t : Span}
    (part : r.part = .unit n read letters) (digit : digitValue? 10 c = some d)
    (added : addUnits r.total n read (spelling letters) = .ok t) :
    Takes r c { r.accept c (.whole d) with total := t }

variable {r r' : Reading} {c : Char}

/-- Whatever step succeeds is one of the ways to take a character. -/
theorem takes_of_step (h : r.step c = .ok r') : r.Takes c r' := by
  unfold step at h
  dsimp only at h
  -- One case for each part of an amount and for whether the character is a digit, as in the step
  -- itself; each leaves one rule.
  cases hpart : r.part <;> cases hdigit : digitValue? 10 c <;> simp only [hpart, hdigit] at h
  case seeking.none =>
    split at h
    · rename_i hblank
      cases h
      exact .skips hpart hblank
    · cases h
  case seeking.some =>
    cases h
    exact .begins hpart hdigit
  case whole.none =>
    split at h
    · rename_i hblank
      cases h
      exact .passes hpart hblank
    split at h
    · rename_i hletter
      cases h
      exact .names hpart hletter
    split at h
    · rename_i hpoint
      cases h
      exact .points hpart hpoint
    · cases h
  case whole.some =>
    obtain ⟨m, hm, h⟩ := bind_eq_ok.1 h
    obtain ⟨hfits, rfl⟩ := word_eq_ok.1 hm
    cases h
    exact .counts hpart hdigit hfits
  case decimals.none =>
    split at h
    · rename_i hblank
      cases h
      exact .passesDecimal hpart hblank
    split at h
    · rename_i hletter
      cases h
      exact .namesDecimal hpart hletter.1 hletter.2
    · cases h
  case decimals.some =>
    obtain ⟨read', hread, h⟩ := bind_eq_ok.1 h
    obtain ⟨low, hlow, hread⟩ := bind_eq_ok.1 hread
    obtain ⟨hfitsLow, rfl⟩ := word_eq_ok.1 hlow
    obtain ⟨high, hhigh, hread⟩ := bind_eq_ok.1 hread
    obtain ⟨hfitsHigh, rfl⟩ := word_eq_ok.1 hhigh
    cases hread
    cases h
    exact .countsDecimal hpart hdigit hfitsLow hfitsHigh
  case unit.none =>
    split at h
    · rename_i hblank
      obtain ⟨t, ht, h⟩ := bind_eq_ok.1 h
      cases h
      exact .ends hpart hblank ht
    split at h
    · rename_i hletter
      cases h
      exact .spells hpart hletter
    · cases h
  case unit.some =>
    obtain ⟨t, ht, h⟩ := bind_eq_ok.1 h
    cases h
    exact .renews hpart hdigit ht

/-- In each of these ways the step succeeds. -/
theorem Takes.step_eq (h : r.Takes c r') : r.step c = .ok r' := by
  have hblank (hc : isBlank c = true) : digitValue? 10 c = none :=
    digitValue?_eq_none (isDigit_of_isBlank hc)
  have hletter (hc : isUnitLetter c = true) : digitValue? 10 c = none ∧ isBlank c = false :=
    ⟨digitValue?_eq_none (isDigit_of_isUnitLetter hc), isBlank_of_isUnitLetter hc⟩
  have hok {α : Type} (a : α) : (pure a : Except (Fault Error) α) = .ok a := rfl
  cases h with
  | skips part blank => simp [step, part, hblank blank, blank, hok]
  | begins part digit => simp [step, part, digit, accept, hok]
  | counts part digit fits => simp [step, part, digit, word_of_lt fits, accept, hok]; rfl
  | passes part blank => simp [step, part, hblank blank, blank, accept, hok]
  | points part point =>
    subst point
    have hpoint : digitValue? 10 '.' = none ∧ isBlank '.' = false ∧ isUnitLetter '.' = false := by
      decide
    simp [step, part, hpoint, hok]
  | names part letter => simp [step, part, hletter letter, letter, accept, hok]
  | countsDecimal part digit low high =>
    simp [step, part, digit, Decimals.push, word_of_lt low, word_of_lt high, accept, hok]
    rfl
  | passesDecimal part blank => simp [step, part, hblank blank, blank, accept, hok]
  | namesDecimal part letter some =>
    simp [step, part, hletter letter, letter, some, accept, hok]
  | spells part letter => simp [step, part, hletter letter, letter, accept, hok]
  | ends part blank added => simp [step, part, hblank blank, blank, added, accept, hok]; rfl
  | renews part digit added => simp [step, part, digit, added, accept, hok]; rfl

/-! ## Reading amounts -/

/-- What the reader gives for the rest of a text. -/
def complete (r : Reading) (s : List Char) : Except (Fault Error) Span :=
  s.foldlM step r >>= finish

/-- A text is read from its first character on. -/
theorem complete_cons (r : Reading) (c : Char) (s : List Char) :
    r.complete (c :: s) = r.step c >>= fun r' => r'.complete s := by
  simp [complete, List.foldlM_cons]

/-- What is taken leaves the rest to be read. -/
theorem Takes.complete_eq (h : r.Takes c r') (s : List Char) :
    r.complete (c :: s) = r'.complete s := by
  rw [complete_cons, h.step_eq]
  rfl

/-- What is refused is refused whatever follows. -/
theorem complete_of_refuses {e : Fault Error} (h : r.step c = .error e) (s : List Char) :
    r.complete (c :: s) = .error e := by
  rw [complete_cons, h]
  rfl

/-- Where the reader is within an amount, but for the positions that it keeps. -/
structure Is (r : Reading) (total : Span) (part : Part) : Prop where
  begun : r.begun = true
  total : r.total = total
  part : r.part = part

/-- After a character the reader is in the part that it took it into, with the same total. -/
theorem is_accept (r : Reading) (c : Char) (part : Part) : (r.accept c part).Is r.total part :=
  ⟨rfl, rfl, rfl⟩

variable {total : Span} {n : Nat} {read : Option Decimals} {letters w : List Char}

/-- So it is wherever the reader was before. -/
theorem Is.accept {part : Part} (h : r.Is total part) (c : Char) (part' : Part) :
    (r.accept c part').Is total part' :=
  ⟨rfl, h.total, rfl⟩

/-- The digits of a number are counted if they fit, and refused if they do not. -/
theorem complete_numeral (hr : r.Is total (.whole n)) (hw : IsNumeral w) (s : List Char) :
    (w.foldl readFigure n < 2 ^ 64 → ∃ r' : Reading,
      r'.Is total (.whole (w.foldl readFigure n)) ∧ r.complete (w ++ s) = r'.complete s) ∧
    (n < 2 ^ 64 → 2 ^ 64 ≤ w.foldl readFigure n →
      r.complete (w ++ s) = .error (.error .numberOverflow)) := by
  induction w generalizing n r with
  | nil => exact ⟨fun _ => ⟨r, hr, rfl⟩, fun hlow hhigh => absurd hlow (Nat.not_lt.2 hhigh)⟩
  | cons c w ih =>
    obtain ⟨hc, hw⟩ := List.forall_mem_cons.1 hw
    rw [List.foldl_cons, List.cons_append]
    rcases hc with hdigit | hblank
    · obtain ⟨d, hd⟩ := exists_digitValue? hdigit
      have hmore := le_foldl_readFigure (n * 10 + d) w
      rw [readFigure_of_digit hd]
      rcases Nat.lt_or_ge (n * 10 + d) (2 ^ 64) with hfits | hgreat
      · have htakes := Takes.counts hr.part hd hfits
        have hih := ih (hr.accept c (.whole (n * 10 + d))) hw
        rw [htakes.complete_eq]
        exact ⟨hih.1, fun _ => hih.2 hfits⟩
      · refine ⟨fun hlt => by omega, fun _ _ => complete_of_refuses ?_ _⟩
        simp [step, hr.part, hd, word_of_le hgreat]
    · have htakes := Takes.passes hr.part hblank
      rw [readFigure_of_blank hblank, htakes.complete_eq]
      exact ih (hr.accept c _) hw

/-- The same for decimals, of which it is the denominator that does not fit first. -/
theorem complete_decimals {m d : Nat} (hr : r.Is total (.decimals n ⟨m, d⟩)) (hm : m < d)
    (hw : IsNumeral w) (s : List Char) :
    (d * 10 ^ places w < 2 ^ 64 → ∃ r' : Reading,
      r'.Is total (.decimals n ⟨w.foldl readFigure m, d * 10 ^ places w⟩) ∧
        r.complete (w ++ s) = r'.complete s) ∧
    (d < 2 ^ 64 → 2 ^ 64 ≤ d * 10 ^ places w →
      r.complete (w ++ s) = .error (.error .numberOverflow)) := by
  -- On the digits still to come; `m < d` says that the decimals read so far are below one, so the
  -- numerator fits whenever the denominator does.
  induction w generalizing m d r with
  | nil =>
    refine ⟨fun _ => ⟨r, ?_, rfl⟩, fun hlow hhigh => ?_⟩
    · rw [places, List.countP_nil, pow_zero, mul_one]
      exact hr
    · rw [places, List.countP_nil, pow_zero, mul_one] at hhigh
      exact absurd hlow (Nat.not_lt.2 hhigh)
  | cons c w ih =>
    obtain ⟨hc, hw⟩ := List.forall_mem_cons.1 hw
    rw [List.foldl_cons, List.cons_append]
    rcases hc with hdigit | hblank
    · obtain ⟨k, hk⟩ := exists_digitValue? hdigit
      have hkten := digitValue?_lt hk
      have hplaces : d * 10 ^ places (c :: w) = d * 10 * 10 ^ places w := by
        rw [places, List.countP_cons_of_pos hdigit, pow_succ', ← mul_assoc]
        rfl
      have hmk : m * 10 + k < d * 10 := by omega
      have hmore : d * 10 ≤ d * 10 * 10 ^ places w := Nat.le_mul_of_pos_right _ (by positivity)
      rw [readFigure_of_digit hk, hplaces]
      rcases Nat.lt_or_ge (d * 10) (2 ^ 64) with hfits | hgreat
      · have htakes := Takes.countsDecimal hr.part hk hfits (hmk.trans hfits)
        rw [htakes.complete_eq]
        have hih := ih (hr.accept c _) hmk hw
        exact ⟨hih.1, fun _ => hih.2 hfits⟩
      · refine ⟨fun hlt => by omega, fun _ _ => complete_of_refuses ?_ _⟩
        simp [step, hr.part, hk, Decimals.push, word_of_le hgreat]
        rfl
    · have hplaces : places (c :: w) = places w := by
        rw [places, List.countP_cons_of_neg (by rw [isDigit_of_isBlank hblank]; decide)]
        rfl
      have htakes := Takes.passesDecimal hr.part hblank
      rw [readFigure_of_blank hblank, hplaces, htakes.complete_eq]
      exact ih (hr.accept c _) hm hw

/-- The letters of a unit are kept, last first. -/
theorem complete_letters (hr : r.Is total (.unit n read letters))
    (hw : ∀ c ∈ w, isUnitLetter c = true) (s : List Char) :
    ∃ r' : Reading, r'.Is total (.unit n read (w.reverse ++ letters)) ∧
      r.complete (w ++ s) = r'.complete s := by
  induction w generalizing letters r with
  | nil => exact ⟨r, hr, rfl⟩
  | cons c w ih =>
    obtain ⟨hc, hw⟩ := List.forall_mem_cons.1 hw
    have htakes := Takes.spells hr.part hc
    rw [List.cons_append, htakes.complete_eq, List.reverse_cons, List.append_assoc]
    exact ih (hr.accept c _) hw

/-- Blanks in front of an amount are skipped. -/
theorem complete_gap {start : Nat} (hr : r.part = .seeking start)
    (hw : ∀ c ∈ w, isBlank c = true) (s : List Char) :
    ∃ offset, r.complete (w ++ s) = { r with offset }.complete s := by
  induction w generalizing r with
  | nil => exact ⟨r.offset, rfl⟩
  | cons c w ih =>
    obtain ⟨hc, hw⟩ := List.forall_mem_cons.1 hw
    have htakes := Takes.skips hr hc
    rw [← hr] at htakes
    obtain ⟨offset, hrest⟩ := ih (r := { r with offset := r.offset + c.utf8Size }) hr hw
    exact ⟨offset, (htakes.complete_eq _).trans hrest⟩

/-- The number of an amount is read if it fits, and refused if it does not. -/
theorem complete_figures {start : Nat} (hr : r.part = .seeking start) (f : Figures)
    (s : List Char) :
    (f.count < 2 ^ 64 → ∃ r' : Reading, r'.Is r.total (.whole f.count) ∧
      r.complete (f.chars ++ s) = r'.complete s) ∧
    (2 ^ 64 ≤ f.count → r.complete (f.chars ++ s) = .error (.error .numberOverflow)) := by
  obtain ⟨c, hc, hdigit⟩ := f.front
  obtain ⟨w, hdigits⟩ := List.head?_eq_some_iff.1 hc
  obtain ⟨d, hd⟩ := exists_digitValue? hdigit
  have hw : IsNumeral w := fun b hb => f.isNumeral b (hdigits ▸ List.mem_cons_of_mem c hb)
  obtain ⟨offset, hgap⟩ := complete_gap hr f.gap_blank (f.digits ++ s)
  have htakes : ({ r with offset } : Reading).Takes c _ := .begins hr hd
  have hrest := complete_numeral (is_accept { r with offset } c (.whole d)) hw s
  have hten := digitValue?_lt hd
  rw [Figures.chars, List.append_assoc, hgap, Figures.count, hdigits, List.cons_append,
    htakes.complete_eq, numeral_cons hd]
  exact ⟨hrest.1, hrest.2 (by omega)⟩

/-- The letters of a unit are read behind a number, and behind its decimals. -/
theorem complete_unit {a : Amount} (s : List Char)
    (hfirst : ∀ c, isUnitLetter c = true → r.Takes c (r.accept c (.unit n read [c]))) :
    ∃ r' : Reading, r'.Is r.total (.unit n read a.unit.reverse) ∧
      r.complete (a.unit ++ s) = r'.complete s := by
  obtain ⟨c, w, hunit⟩ := List.exists_cons_of_ne_nil a.unit_ne_nil
  have hletters := a.unit_letters
  rw [hunit] at hletters ⊢
  obtain ⟨hc, hw⟩ := List.forall_mem_cons.1 hletters
  rw [List.cons_append, (hfirst c hc).complete_eq, List.reverse_cons]
  exact complete_letters (is_accept r c _) hw s

/-- An amount is read up to the end of its unit if its numbers fit, and refused if not. -/
theorem complete_amount {start : Nat} (hr : r.part = .seeking start) (a : Amount) (s : List Char) :
    (a.Fits → ∃ r' : Reading, r'.Is r.total (.unit a.count a.fraction a.unit.reverse) ∧
      r.complete (a.chars ++ s) = r'.complete s) ∧
    (¬ a.Fits → r.complete (a.chars ++ s) = .error (.error .numberOverflow)) := by
  have hfigures := complete_figures hr a.toFigures (decimalsChars a.decimals ++ a.unit ++ s)
  rw [← List.append_assoc, ← Amount.chars] at hfigures
  rcases Nat.lt_or_ge a.count (2 ^ 64) with hcount | hcount
  -- A whole part that does not fit is refused before the decimals are seen.
  case inr =>
    exact ⟨fun h => absurd h.1 (Nat.not_lt.2 hcount), fun _ => hfigures.2 hcount⟩
  obtain ⟨r₁, hr₁, hrest⟩ := hfigures.1 hcount
  rw [hrest]
  unfold Amount.Fits Amount.fraction
  cases hdecimals : a.decimals with
  | none =>
    obtain ⟨r₂, hr₂, hunit⟩ := complete_unit (r := r₁) (a := a) s fun c hc => .names hr₁.part hc
    rw [hr₁.total] at hr₂
    exact ⟨fun _ => ⟨r₂, hr₂, hunit⟩, fun h => absurd ⟨hcount, fun d hd => by cases hd⟩ h⟩
  | some w =>
    obtain ⟨hw, hdigit⟩ := a.decimals_isNumeral w hdecimals
    have htakes := Takes.points hr₁.part rfl
    have hpoint : ({ r₁ with
        offset := r₁.offset + '.'.utf8Size, part := .decimals a.count ⟨0, 1⟩ } : Reading).Is
        r.total (.decimals a.count ⟨0, 1⟩) := ⟨hr₁.begun, hr₁.total, rfl⟩
    have hfold := complete_decimals hpoint Nat.zero_lt_one hw (a.unit ++ s)
    rw [one_mul] at hfold
    show (_ → ∃ r' : Reading, _ ∧ r₁.complete ('.' :: (w ++ a.unit) ++ s) = _) ∧
      (_ → r₁.complete ('.' :: (w ++ a.unit) ++ s) = _)
    rw [List.cons_append, htakes.complete_eq, List.append_assoc]
    constructor
    · rintro ⟨-, hfits⟩
      obtain ⟨r₂, hr₂, hread⟩ := hfold.1 (hfits _ rfl)
      -- A unit behind the point needs at least one decimal, which moves the denominator off one.
      have hsome : (10 ^ places w : Nat) ≠ 1 := (one_lt_ten_pow_places hdigit).ne'
      obtain ⟨r₃, hr₃, hunit⟩ := complete_unit (r := r₂) (a := a) s fun c hc =>
        .namesDecimal hr₂.part hc hsome
      rw [hr₂.total] at hr₃
      exact ⟨r₃, hr₃, hread.trans hunit⟩
    · intro hnot
      refine hfold.2 (by decide) (Nat.not_lt.1 fun hlt => hnot ⟨hcount, ?_⟩)
      rintro d ⟨⟩
      exact hlt

/-- Where a unit ends, its amount is added, and the reader is in front of the next one. -/
theorem complete_end (hr : r.Is total (.unit n read letters)) {s : List Char} (hs : EndsUnit s) :
    ∃ offset mark start, r.complete s = addUnits total n read (spelling letters) >>= fun t =>
      Reading.complete ⟨offset, mark, true, t, .seeking start⟩ s := by
  obtain ⟨hbegun, rfl, hpart⟩ := hr
  cases s with
  | nil =>
    refine ⟨0, 0, 0, ?_⟩
    show r.finish = _
    rw [finish, hpart]
    show _ = addUnits r.total n read (spelling letters) >>= pure
    rw [bind_pure]
  | cons c s =>
    -- What ends a unit is a digit, which begins the next amount, or a blank.
    rcases hs c rfl with hdigit | hblank
    · obtain ⟨d, hd⟩ := exists_digitValue? hdigit
      refine ⟨r.offset, 0, 0, ?_⟩
      cases hadd : addUnits r.total n read (spelling letters) with
      | error e =>
        refine complete_of_refuses ?_ s
        simp [step, hpart, hd, hadd]
      | ok t =>
        rw [(Takes.renews hpart hd hadd).complete_eq]
        show _ = Reading.complete ⟨r.offset, 0, true, t, .seeking 0⟩ (c :: s)
        rw [(Takes.begins rfl hd).complete_eq]
        rfl
    · refine ⟨r.offset, r.offset + c.utf8Size, r.offset + c.utf8Size, ?_⟩
      cases hadd : addUnits r.total n read (spelling letters) with
      | error e =>
        refine complete_of_refuses ?_ s
        simp [step, hpart, digitValue?_eq_none (isDigit_of_isBlank hblank), hblank, hadd]
      | ok t =>
        rw [(Takes.ends hpart hblank hadd).complete_eq]
        show _ = Reading.complete ⟨r.offset, r.offset + c.utf8Size, true, t,
          .seeking (r.offset + c.utf8Size)⟩ (c :: s)
        rw [(Takes.skips rfl hblank).complete_eq]
        rfl

/-- An amount that a reader finds in front of it is added. -/
theorem complete_addTo {start : Nat} (hr : r.part = .seeking start) (a : Amount) {s : List Char}
    (hs : EndsUnit s) :
    ∃ offset mark start, r.complete (a.chars ++ s) = a.addTo r.total >>= fun t =>
      Reading.complete ⟨offset, mark, true, t, .seeking start⟩ s := by
  have hamount := complete_amount hr a s
  by_cases hfits : a.Fits
  · obtain ⟨r', hr', hread⟩ := hamount.1 hfits
    rw [hread, Amount.addTo, if_pos hfits, ← spelling_reverse]
    exact complete_end hr' hs
  · refine ⟨0, 0, 0, ?_⟩
    rw [hamount.2 hfits, Amount.addTo, if_neg hfits]
    rfl

/-- Amounts that a reader finds in front of it are added up. -/
theorem complete_text {start : Nat} (hr : r.part = .seeking start) (l : List Amount)
    {s : List Char} (hs : EndsUnit s) :
    ∃ offset mark start, r.complete (text l ++ s) = addAll r.total l >>= fun t =>
      Reading.complete ⟨offset, mark, r.begun || !l.isEmpty, t, .seeking start⟩ s := by
  induction l generalizing r start with
  | nil =>
    refine ⟨r.offset, r.mark, start, ?_⟩
    show _ = Reading.complete ⟨r.offset, r.mark, r.begun || false, r.total, .seeking start⟩ s
    rw [Bool.or_false, ← hr]
    rfl
  | cons a l ih =>
    obtain ⟨offset, mark, start', hfirst⟩ := complete_addTo hr a (endsUnit_text l hs)
    rw [text_cons, List.append_assoc, hfirst, addAll, List.foldlM_cons, List.isEmpty_cons,
      Bool.not_false, Bool.or_true]
    cases a.addTo r.total with
    | error e => exact ⟨0, 0, 0, rfl⟩
    | ok t => exact ih (r := ⟨offset, mark, true, t, .seeking start'⟩) rfl

end Reading

/-! ## Whole texts -/

theorem read_eq_complete (s : List Char) : read s = Reading.start.complete s := rfl

variable {l : List Amount} {s : List Char}

/-- **A text of amounts is read as what they add up to.** -/
theorem read_text (hl : l ≠ []) (hs : ∀ c ∈ s, isBlank c = true) :
    read (text l ++ s) = addAll Span.zero l := by
  have hends : EndsUnit s := fun c hc => Or.inr (hs c (List.mem_of_mem_head? hc))
  obtain ⟨offset, mark, start, hread⟩ := Reading.complete_text (r := .start) rfl l hends
  rw [List.isEmpty_eq_false_iff.2 hl] at hread
  rw [read_eq_complete, hread]
  show (addAll Span.zero l >>= _) = _
  suffices hrest : ∀ t, Reading.complete ⟨offset, mark, true, t, .seeking start⟩ s = .ok t by
    cases hadd : addAll Span.zero l with
    | error e => rfl
    | ok t => exact hrest t
  intro t
  obtain ⟨offset', hgap⟩ :=
    Reading.complete_gap (r := ⟨offset, mark, true, t, .seeking start⟩) rfl hs []
  rw [List.append_nil] at hgap
  rw [hgap]
  rfl

/-- If amounts do not add up, it does not matter what follows them. -/
theorem read_text_of_error {f : Fault Error} (h : addAll Span.zero l = .error f)
    (hs : EndsUnit s) : read (text l ++ s) = .error f := by
  obtain ⟨offset, mark, start, hread⟩ := Reading.complete_text (r := .start) rfl l hs
  rw [read_eq_complete, hread]
  show (addAll Span.zero l >>= _) = _
  rw [h]
  rfl

end LoadReplay.Span.Compound
