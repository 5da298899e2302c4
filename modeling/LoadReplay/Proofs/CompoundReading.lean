import LoadReplay.Proofs.CompoundText

/-!
# What is read as a compound duration

Only texts of amounts are read as durations, and only sums of amounts overflow.

## Shape of the proof

What was read so far is a text of amounts that add up to the total, and a part of one more
(`Describes`): a gap, figures, decimals that have begun, or an amount with some letters of its unit.
Every character that is taken keeps this up (`Describes.next`), with one case for each way to take
it.  The reader adds an amount only at the end of a unit, so this is also where it overflows
(`step_eq_overflow`, `finish_eq_overflow`).

Main statements: `read_eq_ok`, `read_eq_overflow` and `exact_of_addAll`.
-/

namespace LoadReplay.Span.Compound

open Text Number

/-! ## Figures and amounts, one character longer -/

section Longer

variable {w : List Char} {c : Char} {d : Nat}

/-- A number that goes on with a digit. -/
theorem numeral_concat_digit (hd : digitValue? 10 c = some d) (w : List Char) :
    numeral (w ++ [c]) = numeral w * 10 + d := by
  rw [numeral, List.foldl_concat, readFigure_of_digit hd]
  rfl

/-- A number that goes on with a blank is the same number. -/
theorem numeral_concat_blank (hc : isBlank c = true) (w : List Char) :
    numeral (w ++ [c]) = numeral w := by
  rw [numeral, List.foldl_concat, readFigure_of_blank hc]
  rfl

/-- A digit more is a place more. -/
theorem places_concat_digit (hc : isDigit c = true) (w : List Char) :
    places (w ++ [c]) = places w + 1 := by
  rw [places, List.countP_append, List.countP_singleton, if_pos hc]
  rfl

/-- A blank is no place. -/
theorem places_concat_blank (hc : isBlank c = true) (w : List Char) :
    places (w ++ [c]) = places w := by
  rw [places, List.countP_append, List.countP_singleton, isDigit_of_isBlank hc]
  rfl

/-- A number goes on with digits and blanks. -/
theorem IsNumeral.concat (hw : IsNumeral w) (hc : isDigit c = true ∨ isBlank c = true) :
    IsNumeral (w ++ [c]) := by
  intro b hb
  rcases List.mem_append.1 hb with hb | hb
  · exact hw b hb
  · rwa [List.mem_singleton.1 hb]

/-- The first digit of a number, behind a gap. -/
def Figures.first (gap : List Char) (hgap : ∀ c ∈ gap, isBlank c = true) (c : Char)
    (hc : isDigit c = true) : Figures where
  gap := gap
  digits := [c]
  gap_blank := hgap
  isNumeral := fun b hb => Or.inl (by rwa [List.mem_singleton.1 hb])
  front := ⟨c, rfl, hc⟩

/-- A number with one more digit or blank. -/
def Figures.concat (f : Figures) (c : Char) (hc : isDigit c = true ∨ isBlank c = true) :
    Figures where
  gap := f.gap
  digits := f.digits ++ [c]
  gap_blank := f.gap_blank
  isNumeral := f.isNumeral.concat hc
  front := by
    obtain ⟨b, hb, hdigit⟩ := f.front
    refine ⟨b, ?_, hdigit⟩
    rw [List.head?_append, hb]
    rfl

/-- The text of a number that goes on has one more character. -/
theorem Figures.chars_concat (f : Figures) (hc : isDigit c = true ∨ isBlank c = true) :
    (f.concat c hc).chars = f.chars ++ [c] :=
  (List.append_assoc f.gap f.digits [c]).symm

/-- The first letter of a unit behind a number. -/
def Figures.named (f : Figures) (decimals : Option (List Char))
    (hdecimals : ∀ w ∈ decimals, IsNumeral w ∧ ∃ b ∈ w, isDigit b = true) (c : Char)
    (hc : isUnitLetter c = true) : Amount where
  toFigures := f
  decimals := decimals
  unit := [c]
  decimals_isNumeral := hdecimals
  unit_letters := fun b hb => by rwa [List.mem_singleton.1 hb]
  unit_ne_nil := List.cons_ne_nil c []

/-- A unit with one more letter. -/
def Amount.concat (a : Amount) (c : Char) (hc : isUnitLetter c = true) : Amount :=
  { a with
    unit := a.unit ++ [c]
    unit_letters := fun b hb => (List.mem_append.1 hb).elim (a.unit_letters b) fun hb => by
      rwa [List.mem_singleton.1 hb]
    unit_ne_nil := List.append_ne_nil_of_right_ne_nil _ (List.cons_ne_nil c []) }

/-- So has that of an amount whose unit goes on. -/
theorem Amount.chars_concat (a : Amount) (hc : isUnitLetter c = true) :
    (a.concat c hc).chars = a.chars ++ [c] := by
  show a.toFigures.chars ++ (decimalsChars a.decimals ++ (a.unit ++ [c])) = _
  rw [Amount.chars, List.append_assoc, List.append_assoc]

end Longer

/-- The text of one more amount stands behind those of the others. -/
theorem text_concat (l : List Amount) (a : Amount) : text (l ++ [a]) = text l ++ a.chars := by
  rw [text, List.flatMap_append, List.flatMap_singleton]
  rfl

/-- Amounts are added up one list after the other. -/
theorem addAll_append (total : Span) (l₁ l₂ : List Amount) :
    addAll total (l₁ ++ l₂) = addAll total l₁ >>= fun t => addAll t l₂ :=
  List.foldlM_append

/-- The last amount is added to all others. -/
theorem addAll_concat (total : Span) (l : List Amount) (a : Amount) :
    addAll total (l ++ [a]) = addAll total l >>= fun t => a.addTo t := by
  rw [addAll_append]
  refine congrArg _ (funext fun t => ?_)
  show (a.addTo t >>= pure) = _
  rw [bind_pure]

/-! ## What was read so far -/

/-- Whether a text is the part of an amount that the reader is in. -/
inductive Part.Holds (q : List Char) : Part → Prop where
  | seeking (start : Nat) (gap : ∀ c ∈ q, isBlank c = true) : Holds q (.seeking start)
  | whole (f : Figures) (text : q = f.chars) (fits : f.count < 2 ^ 64) : Holds q (.whole f.count)
  | decimals (f : Figures) (w : List Char) (text : q = f.chars ++ '.' :: w)
    (fits : f.count < 2 ^ 64) (isNumeral : IsNumeral w) (fitsDecimals : 10 ^ places w < 2 ^ 64) :
    Holds q (.decimals f.count ⟨numeral w, 10 ^ places w⟩)
  | unit (a : Amount) (text : q = a.chars) (fits : a.Fits) :
    Holds q (.unit a.count a.fraction a.unit.reverse)

/-- Whether the reader is where a text takes it: some amounts that add up to its total, and the
part of one more that it is in. -/
structure Describes (l : List Amount) (q : List Char) (r : Reading) : Prop where
  added : addAll Span.zero l = .ok r.total
  part : r.part.Holds q
  begun : ∀ start, r.part = .seeking start → r.begun = true → l ≠ []

/-- At first nothing was read. -/
theorem describes_start : Describes [] [] Reading.start :=
  ⟨rfl, .seeking 0 (List.forall_mem_nil _), fun _ _ h => (by cases h)⟩

variable {r r' : Reading} {c : Char} {l : List Amount} {q : List Char}

/-- The reader is in another part of the same amount, and begins no new one. -/
theorem Describes.accept {part : Part} (h : Describes l q r) {q' : List Char}
    (hpart : part.Holds q') (hne : ∀ start, part ≠ .seeking start) :
    Describes l q' (r.accept c part) :=
  ⟨h.added, hpart, fun start hstart => absurd hstart (hne start)⟩

/-- A character more of the part of an amount that the reader is in. -/
theorem Describes.within (h : Describes l (q ++ [c]) r') :
    ∃ l' q', text l' ++ q' = text l ++ q ++ [c] ∧ Describes l' q' r' :=
  ⟨l, q ++ [c], (List.append_assoc _ _ _).symm, h⟩

/-- Behind a unit its amount is one of those that are added up. -/
theorem Describes.ended {n : Nat} {read : Option Decimals} {letters : List Char}
    (h : Describes l q r) (hpart : r.part = .unit n read letters) :
    ∃ a, q = a.chars ∧
      addAll Span.zero (l ++ [a]) = addUnits r.total n read (spelling letters) := by
  have hholds := h.part
  rw [hpart] at hholds
  cases hholds with
  | unit a htext hfits =>
    refine ⟨a, htext, ?_⟩
    rw [addAll_concat, h.added, spelling_reverse]
    show a.addTo r.total = _
    rw [Amount.addTo, if_pos hfits]

/-! ### One more character of each part -/

section OneMore

variable {n d : Nat} {read : Option Decimals} {decimals : Decimals} {letters : List Char}

/-- Blanks in front of a number make up a gap. -/
theorem Part.Holds.skips {start : Nat} (h : (Part.seeking start).Holds q)
    (blank : isBlank c = true) : (Part.seeking start).Holds (q ++ [c]) := by
  cases h with
  | seeking _ gap =>
    refine .seeking start fun b hb => ?_
    rcases List.mem_append.1 hb with hb | hb
    · exact gap b hb
    · rwa [List.mem_singleton.1 hb]

/-- The first digit behind a gap begins a number. -/
theorem Part.Holds.begins {start : Nat} (h : (Part.seeking start).Holds q)
    (digit : digitValue? 10 c = some d) : (Part.whole d).Holds (q ++ [c]) := by
  cases h with
  | seeking _ gap =>
    let f := Figures.first q gap c (isDigit_of_digitValue? digit)
    have hcount : f.count = d := (numeral_cons digit []).trans rfl
    have hpart := Part.Holds.whole (q := q ++ [c]) f rfl
      (hcount ▸ (digitValue?_lt digit).trans (by decide))
    rwa [hcount] at hpart

/-- A digit goes on with the number, as long as that fits in a word. -/
theorem Part.Holds.counts (h : (Part.whole n).Holds q) (digit : digitValue? 10 c = some d)
    (fits : n * 10 + d < 2 ^ 64) : (Part.whole (n * 10 + d)).Holds (q ++ [c]) := by
  cases h with
  | whole f text _ =>
    have hdigit : isDigit c = true ∨ isBlank c = true := Or.inl (isDigit_of_digitValue? digit)
    have hcount : (f.concat c hdigit).count = f.count * 10 + d := numeral_concat_digit digit _
    have hpart := Part.Holds.whole (q := q ++ [c]) (f.concat c hdigit)
      (by rw [f.chars_concat, text]) (by rwa [hcount])
    rwa [hcount] at hpart

/-- A blank within a number leaves it as it is. -/
theorem Part.Holds.passes (h : (Part.whole n).Holds q) (blank : isBlank c = true) :
    (Part.whole n).Holds (q ++ [c]) := by
  cases h with
  | whole f text fits =>
    have hcount : (f.concat c (Or.inr blank)).count = f.count := numeral_concat_blank blank _
    have hpart := Part.Holds.whole (q := q ++ [c]) (f.concat c (Or.inr blank))
      (by rw [f.chars_concat, text]) (by rwa [hcount])
    rwa [hcount] at hpart

/-- A point behind a number begins its decimals. -/
theorem Part.Holds.points (h : (Part.whole n).Holds q) (point : c = '.') :
    (Part.decimals n ⟨0, 1⟩).Holds (q ++ [c]) := by
  cases h with
  | whole f text fits =>
    exact .decimals f [] (by rw [text, point]) fits (List.forall_mem_nil _) (by decide)

/-- A letter behind a number begins its unit. -/
theorem Part.Holds.names (h : (Part.whole n).Holds q) (letter : isUnitLetter c = true) :
    (Part.unit n none [c]).Holds (q ++ [c]) := by
  cases h with
  | whole f text fits =>
    exact .unit (f.named none (fun w hw => by cases hw) c letter) (by rw [text]; rfl)
      ⟨fits, fun d hd => by cases hd⟩

/-- A digit goes on with the decimals, as long as their denominator fits in a word. -/
theorem Part.Holds.countsDecimal (h : (Part.decimals n decimals).Holds q)
    (digit : digitValue? 10 c = some d) (low : decimals.denominator * 10 < 2 ^ 64) :
    (Part.decimals n ⟨decimals.numerator * 10 + d, decimals.denominator * 10⟩).Holds
      (q ++ [c]) := by
  cases h with
  | decimals f w text fits isNumeral _ =>
    have hdigit := isDigit_of_digitValue? digit
    have hplaces : 10 ^ places (w ++ [c]) = 10 ^ places w * 10 := by
      rw [places_concat_digit hdigit, pow_succ]
    have hpart := Part.Holds.decimals (q := q ++ [c]) f (w ++ [c])
      (by rw [text, List.append_assoc]; rfl) fits (isNumeral.concat (Or.inl hdigit))
      (by rwa [hplaces])
    rwa [hplaces, numeral_concat_digit digit] at hpart

/-- A blank within decimals leaves them as they are. -/
theorem Part.Holds.passesDecimal (h : (Part.decimals n decimals).Holds q)
    (blank : isBlank c = true) : (Part.decimals n decimals).Holds (q ++ [c]) := by
  cases h with
  | decimals f w text fits isNumeral fitsDecimals =>
    have hplaces := places_concat_blank blank w
    have hpart := Part.Holds.decimals (q := q ++ [c]) f (w ++ [c])
      (by rw [text, List.append_assoc]; rfl) fits (isNumeral.concat (Or.inr blank))
      (by rwa [hplaces])
    rwa [hplaces, numeral_concat_blank blank] at hpart

/-- A letter behind decimals begins the unit, if there is a digit among them. -/
theorem Part.Holds.namesDecimal (h : (Part.decimals n decimals).Holds q)
    (letter : isUnitLetter c = true) (some : decimals.denominator ≠ 1) :
    (Part.unit n (.some decimals) [c]).Holds (q ++ [c]) := by
  cases h with
  | decimals f w text fits isNumeral fitsDecimals =>
    -- Without a digit nothing has been multiplied into the denominator.
    have hdigit : ∃ b ∈ w, isDigit b = true := by
      rw [← List.countP_pos_iff]
      refine Nat.pos_of_ne_zero fun hzero => some ?_
      show 10 ^ places w = 1
      rw [places, hzero, pow_zero]
    have hnumeral : ∀ v ∈ Option.some w, IsNumeral v ∧ ∃ b ∈ v, isDigit b = true := by
      rintro v ⟨⟩
      exact ⟨isNumeral, hdigit⟩
    exact .unit (f.named (Option.some w) hnumeral c letter)
      (by rw [text, List.append_assoc]; rfl) ⟨fits, fun d hd => by cases hd; exact fitsDecimals⟩

/-- A letter goes on with the unit. -/
theorem Part.Holds.spells (h : (Part.unit n read letters).Holds q)
    (letter : isUnitLetter c = true) : (Part.unit n read (c :: letters)).Holds (q ++ [c]) := by
  cases h with
  | unit a text fits =>
    have hpart := Part.Holds.unit (q := q ++ [c]) (a.concat c letter)
      (by rw [a.chars_concat, text]) fits
    have hletters : (a.concat c letter).unit.reverse = c :: a.unit.reverse := List.reverse_append
    rwa [hletters] at hpart

end OneMore

/-- Behind a unit its amount is added, and another part begins with the next character. -/
theorem Describes.adds {n : Nat} {read : Option Decimals} {letters : List Char} {t : Span}
    (h : Describes l q r) (hpart : r.part = .unit n read letters)
    (added : addUnits r.total n read (spelling letters) = .ok t) (htotal : r'.total = t)
    (hnew : r'.part.Holds [c]) :
    ∃ l' q', text l' ++ q' = text l ++ q ++ [c] ∧ Describes l' q' r' := by
  obtain ⟨a, rfl, hall⟩ := h.ended hpart
  refine ⟨l ++ [a], [c], by rw [text_concat], ?_, hnew, fun _ _ _ => ?_⟩
  · rw [hall, added, htotal]
  · exact List.append_ne_nil_of_right_ne_nil _ (List.cons_ne_nil a [])

/-- **Whatever character is taken, the reader is where the text up to it leads.** -/
theorem Describes.next (h : Describes l q r) (ht : r.Takes c r') :
    ∃ l' q', text l' ++ q' = text l ++ q ++ [c] ∧ Describes l' q' r' := by
  have hholds := h.part
  -- Within an amount the part gets longer; the end of a unit begins the next one from nothing.
  cases ht with
  | skips part blank =>
    exact Describes.within ⟨h.added, (part ▸ hholds).skips blank, fun _ _ => h.begun _ part⟩
  | begins part digit =>
    exact (h.accept ((part ▸ hholds).begins digit) fun _ => Part.noConfusion).within
  | counts part digit fits =>
    exact (h.accept ((part ▸ hholds).counts digit fits) fun _ => Part.noConfusion).within
  | passes part blank =>
    exact (h.accept ((part ▸ hholds).passes blank) fun _ => Part.noConfusion).within
  | points part point =>
    exact Describes.within
      ⟨h.added, (part ▸ hholds).points point, fun _ hstart => Part.noConfusion hstart⟩
  | names part letter =>
    exact (h.accept ((part ▸ hholds).names letter) fun _ => Part.noConfusion).within
  | countsDecimal part digit low =>
    exact (h.accept ((part ▸ hholds).countsDecimal digit low) fun _ => Part.noConfusion).within
  | passesDecimal part blank =>
    exact (h.accept ((part ▸ hholds).passesDecimal blank) fun _ => Part.noConfusion).within
  | namesDecimal part letter some =>
    exact (h.accept ((part ▸ hholds).namesDecimal letter some) fun _ => Part.noConfusion).within
  | spells part letter =>
    exact (h.accept ((part ▸ hholds).spells letter) fun _ => Part.noConfusion).within
  | ends part blank added =>
    have hgap : (Part.seeking (r.offset + c.utf8Size)).Holds [c] :=
      .seeking _ fun b hb => by rwa [List.mem_singleton.1 hb]
    exact h.adds part added rfl hgap
  | renews part digit added =>
    have hgap : (Part.seeking 0).Holds [] := .seeking 0 (List.forall_mem_nil _)
    exact h.adds part added rfl (hgap.begins digit)

/-! ## Overflow -/

/-- A character at which the reader overflows ends a unit. -/
theorem step_eq_overflow (h : r.step c = .error .overflow) :
    ∃ n read letters, r.part = .unit n read letters ∧ (isDigit c = true ∨ isBlank c = true) ∧
      addUnits r.total n read (spelling letters) = .error .overflow := by
  unfold Reading.step at h
  dsimp only at h
  -- Only where an amount is complete something is added; everywhere else a digit can at most fail
  -- to fit a word, which is an error.
  cases hpart : r.part <;> cases hdigit : digitValue? 10 c <;> simp only [hpart, hdigit] at h
  case seeking.none => split at h <;> cases h
  case seeking.some => cases h
  case whole.none =>
    split at h
    · cases h
    split at h
    · cases h
    split at h <;> cases h
  case whole.some =>
    rcases bind_eq_error.1 h with hword | ⟨_, _, h⟩
    · exact absurd hword (word_ne_overflow _)
    · cases h
  case decimals.none =>
    split at h
    · cases h
    split at h <;> cases h
  case decimals.some =>
    rcases bind_eq_error.1 h with hpush | ⟨_, _, h⟩
    · rcases bind_eq_error.1 hpush with hword | ⟨_, _, hpush⟩
      · exact absurd hword (word_ne_overflow _)
      rcases bind_eq_error.1 hpush with hword | ⟨_, _, hpush⟩
      · exact absurd hword (word_ne_overflow _)
      · cases hpush
    · cases h
  case unit.none n read letters =>
    split at h
    · rename_i hblank
      rcases bind_eq_error.1 h with hadd | ⟨_, _, h⟩
      · exact ⟨n, read, letters, rfl, Or.inr hblank, hadd⟩
      · cases h
    split at h <;> cases h
  case unit.some n read letters d =>
    rcases bind_eq_error.1 h with hadd | ⟨_, _, h⟩
    · exact ⟨n, read, letters, rfl, Or.inl (isDigit_of_digitValue? hdigit), hadd⟩
    · cases h

/-! ## The whole text -/

/-- The empty text is no unit. -/
theorem addUnits_empty (total : Span) (n : Nat) (decimals : Option Decimals) :
    addUnits total n decimals "" = .error (.error (.unknownUnit "" n)) := rfl

variable {s : List Char} {t : Span}

/-- What the end of the text brings: an error, or the total behind some amounts and a gap, or the
last amount is added. -/
theorem Describes.finish_cases (h : Describes l q r) :
    (∃ e, r.finish = .error (.error e)) ∨
      (l ≠ [] ∧ (∀ c ∈ q, isBlank c = true) ∧ r.finish = .ok r.total) ∨
      ∃ a, q = a.chars ∧ r.finish = addAll Span.zero (l ++ [a]) := by
  rw [Reading.finish]
  cases hpart : r.part with
  | seeking start =>
    have hholds := h.part
    rw [hpart] at hholds
    cases hholds with
    | seeking _ hgap =>
      dsimp only
      split
      · rename_i hbegun
        exact Or.inr (Or.inl ⟨h.begun start hpart hbegun, hgap, rfl⟩)
      · exact Or.inl ⟨_, rfl⟩
  | whole n => exact Or.inl ⟨_, addUnits_empty _ _ _⟩
  | decimals n read =>
    dsimp only
    split
    · exact Or.inl ⟨_, rfl⟩
    · exact Or.inl ⟨_, addUnits_empty _ _ _⟩
  | unit n read letters =>
    obtain ⟨a, htext, hall⟩ := h.ended hpart
    exact Or.inr (Or.inr ⟨a, htext, hall.symm⟩)

/-- What was read in the end is the sum of the amounts of the text, with a gap behind them. -/
theorem Describes.of_complete_ok (h : Describes l q r) (hread : r.complete s = .ok t) :
    ∃ l' b, l' ≠ [] ∧ (∀ c ∈ b, isBlank c = true) ∧ text l ++ q ++ s = text l' ++ b ∧
      addAll Span.zero l' = .ok t := by
  induction s generalizing l q r with
  | nil =>
    rcases h.finish_cases with ⟨e, he⟩ | ⟨hl, hgap, hok⟩ | ⟨a, rfl, hall⟩
    · cases he.symm.trans hread
    · cases hok.symm.trans hread
      exact ⟨l, q, hl, hgap, List.append_nil _, h.added⟩
    · refine ⟨l ++ [a], [], List.append_ne_nil_of_right_ne_nil _ (List.cons_ne_nil a []),
        List.forall_mem_nil _, ?_, hall.symm.trans hread⟩
      rw [text_concat]
  | cons c s ih =>
    rw [Reading.complete_cons] at hread
    obtain ⟨r', hstep, hrest⟩ := bind_eq_ok.1 hread
    obtain ⟨l', q', htext, hnext⟩ := h.next (Reading.takes_of_step hstep)
    rw [List.append_cons, ← htext]
    exact ih hnext hrest

/-- Where the reader overflows, the amounts up to some place in the text do. -/
theorem Describes.of_complete_overflow (h : Describes l q r)
    (hread : r.complete s = .error .overflow) :
    ∃ l' rest, EndsUnit rest ∧ text l ++ q ++ s = text l' ++ rest ∧
      addAll Span.zero l' = .error .overflow := by
  induction s generalizing l q r with
  | nil =>
    rcases h.finish_cases with ⟨e, he⟩ | ⟨hl, hgap, hok⟩ | ⟨a, rfl, hall⟩
    · cases he.symm.trans hread
    · cases hok.symm.trans hread
    · refine ⟨l ++ [a], [], fun c hc => (by cases hc), ?_, hall.symm.trans hread⟩
      rw [text_concat]
  | cons c s ih =>
    rw [Reading.complete_cons] at hread
    rcases bind_eq_error.1 hread with hstep | ⟨r', hstep, hrest⟩
    · obtain ⟨n, read, letters, hpart, hc, hadd⟩ := step_eq_overflow hstep
      obtain ⟨a, rfl, hall⟩ := h.ended hpart
      refine ⟨l ++ [a], c :: s, fun b hb => ?_, by rw [text_concat], hall.trans hadd⟩
      cases hb
      exact hc
    · obtain ⟨l', q', htext, hnext⟩ := h.next (Reading.takes_of_step hstep)
      rw [List.append_cons, ← htext]
      exact ih hnext hrest

/-- **What is read is a text of amounts, and they add up to the result.** -/
theorem read_eq_ok : read s = .ok t ↔ ∃ l b, l ≠ [] ∧ (∀ c ∈ b, isBlank c = true) ∧
    s = text l ++ b ∧ addAll Span.zero l = .ok t := by
  constructor
  · exact fun h => describes_start.of_complete_ok h
  · rintro ⟨l, b, hl, hb, rfl, hall⟩
    rw [read_text hl hb, hall]

/-- **Reading overflows exactly where a sum of amounts does.** -/
theorem read_eq_overflow : read s = .error .overflow ↔
    ∃ l rest, EndsUnit rest ∧ s = text l ++ rest ∧ addAll Span.zero l = .error .overflow := by
  constructor
  · exact fun h => describes_start.of_complete_overflow h
  · rintro ⟨l, rest, hrest, rfl, hall⟩
    exact read_text_of_error hall hrest

/-! ## Sums of amounts -/

/-- The unit of an amount, if there is one of its name. -/
def Amount.unit? (a : Amount) : Option Unit := Unit.ofText? (String.ofList a.unit)

/-- How long an amount is, in nanoseconds. -/
def Amount.nanos (a : Amount) : Rat :=
  a.unit?.elim 0 fun u => (a.count + decimalsValue a.fraction) * u.nanos

/-- Where adding an amount overflows. -/
def Amount.Overfills (total : Span) (a : Amount) : Prop :=
  a.Fits ∧ ∃ u, a.unit? = some u ∧ Compound.Overfills total a.count a.fraction u

/-- Adding an amount adds its exact length. -/
theorem exact_of_addTo {a : Amount} {total : Span} (h : a.addTo total = .ok t) :
    (t.nanos : Rat) = total.nanos + a.nanos := by
  rw [Amount.addTo] at h
  split at h
  · obtain ⟨u, hu, hexact⟩ := exact_of_addUnits h
    rw [hexact, Amount.nanos, Amount.unit?, hu, Option.elim_some]
  · cases h

/-- **Amounts add up exactly.** -/
theorem exact_of_addAll {total : Span} (h : addAll total l = .ok t) :
    (t.nanos : Rat) = total.nanos + (l.map Amount.nanos).sum := by
  induction l generalizing total with
  | nil =>
    cases h
    rw [List.map_nil, List.sum_nil, add_zero]
  | cons a l ih =>
    rw [addAll, List.foldlM_cons] at h
    obtain ⟨next, hfirst, hrest⟩ := bind_eq_ok.1 h
    rw [ih hrest, exact_of_addTo hfirst, List.map_cons, List.sum_cons, add_assoc]

/-- Adding an amount overflows exactly if it fits in words and its sum leaves the range. -/
theorem addTo_eq_overflow {a : Amount} {total : Span} :
    a.addTo total = .error .overflow ↔ a.Overfills total := by
  rw [Amount.addTo, Amount.Overfills]
  split
  · rename_i hfits
    rw [addUnits_eq_overflow]
    exact ⟨fun h => ⟨hfits, h⟩, fun h => h.2⟩
  · rename_i hfits
    exact ⟨fun h => (by cases h), fun h => absurd h.1 hfits⟩

/-- A sum overflows at one of its amounts. -/
theorem addAll_eq_overflow {total : Span} : addAll total l = .error .overflow ↔
    ∃ l₁ a l₂ t, l = l₁ ++ a :: l₂ ∧ addAll total l₁ = .ok t ∧ a.Overfills t := by
  constructor
  · intro h
    induction l generalizing total with
    | nil => cases h
    | cons a l ih =>
      rw [addAll, List.foldlM_cons] at h
      rcases bind_eq_error.1 h with hfirst | ⟨next, hfirst, hrest⟩
      · exact ⟨[], a, l, total, rfl, rfl, addTo_eq_overflow.1 hfirst⟩
      · obtain ⟨l₁, b, l₂, t, rfl, hsum, hb⟩ := ih hrest
        refine ⟨a :: l₁, b, l₂, t, rfl, ?_, hb⟩
        rw [addAll, List.foldlM_cons, hfirst]
        exact hsum
  · rintro ⟨l₁, a, l₂, t, rfl, hsum, ha⟩
    rw [addAll_append, hsum]
    show addAll t (a :: l₂) = _
    rw [addAll, List.foldlM_cons, addTo_eq_overflow.2 ha]
    rfl

/-- Amounts in known units are refused for their size only. -/
theorem addAll_eq_error {total : Span} {e : Error} (hl : ∀ a ∈ l, a.unit?.isSome = true)
    (h : addAll total l = .error (.error e)) : e = .numberOverflow := by
  induction l generalizing total with
  | nil => cases h
  | cons a l ih =>
    obtain ⟨ha, hl⟩ := List.forall_mem_cons.1 hl
    rw [addAll, List.foldlM_cons] at h
    rcases bind_eq_error.1 h with hfirst | ⟨next, -, hrest⟩
    · rw [Amount.addTo] at hfirst
      split at hfirst
      · obtain ⟨u, hu⟩ := Option.isSome_iff_exists.1 ha
        exact addUnits_eq_error hu hfirst
      · exact (Fault.error.inj (Except.error.inj hfirst)).symm
    · exact ih hl hrest

end LoadReplay.Span.Compound
