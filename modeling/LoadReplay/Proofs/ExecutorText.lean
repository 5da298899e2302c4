import LoadReplay.Proofs.WholeSeconds
import LoadReplay.Scenario.Executor

/-!
# Texts of executors

The text of an executor is made of words, numbers and spans of time, and a mark stands behind each
of them: a blank, a comma or the closing bracket.  No word holds a mark, so it is fixed where a word
ends (`IsWord.append_inj`).

## Shape of the proof

Within the text of a span the number ends where the unit begins, and the unit says how many decimals
the number may have.  The decimals have lost their last zeros, but with their number known these
can be put back (`padded_eq`).  So a span is identified by its text (`Span.text_inj`), and so are,
stage by stage, the stages of a ramp (`stagesChars_inj`).

Main statement: `Executor.text_eq_text_iff`.
-/

namespace LoadReplay

open Number

/-- Where a text goes over from characters of one kind to another one is fixed. -/
theorem Text.append_inj_of_kind {p : Char → Bool} {a b s t : List Char}
    (ha : ∀ c ∈ a, p c = true) (hb : ∀ c ∈ b, p c = true) (hs : ∀ c ∈ s.head?, p c = false)
    (ht : ∀ c ∈ t.head?, p c = false) (h : a ++ s = b ++ t) : a = b ∧ s = t := by
  have htake {l r : List Char} (hl : ∀ c ∈ l, p c = true) (hr : ∀ c ∈ r.head?, p c = false) :
      (l ++ r).takeWhile p = l := by
    rw [List.takeWhile_append_of_pos hl]
    cases r with
    | nil => rw [List.takeWhile_nil, List.append_nil]
    | cons c r =>
      have hc : ¬ p c = true := by rw [hr c rfl]; exact Bool.false_ne_true
      rw [List.takeWhile_cons_of_neg hc, List.append_nil]
  have heq : a = b := by rw [← htake ha hs, h, htake hb ht]
  subst heq
  exact ⟨rfl, List.append_cancel_left h⟩

/-! ## Spans -/

namespace Span

/-- The units of spans, each with the number of decimals that its parts can make up. -/
def units : List (Nat × String) := [(9, "s"), (6, "ms"), (3, "µs"), (0, "ns")]

/-- Whether a character may stand in the number of a span. -/
def inDecimal (c : Char) : Bool := isDigit c || c == '.'

/-- The decimals of a fraction with all their zeros. -/
def padded (part places : Nat) : List Char :=
  List.replicate (places - (Nat.toDigits 10 part).length) '0' ++ Nat.toDigits 10 part

/-- The decimals of a fraction without the zeros at their end. -/
def decimals (part places : Nat) : List Char :=
  ((padded part places).reverse.dropWhile (· == '0')).reverse

variable {part part' places : Nat}

/-- Decimals that are all zero are not written, and neither is their point. -/
theorem toList_fractionText (part places : Nat) :
    (fractionText part places).toList =
      if (decimals part places).isEmpty then [] else '.' :: decimals part places := by
  have htext : fractionText part places = if (decimals part places).isEmpty then ""
      else "." ++ String.ofList (decimals part places) := rfl
  rw [htext]
  split
  · rfl
  · rw [String.toList_append]
    exact congrArg ('.' :: ·) String.toList_ofList

/-- Zeros in front do not change a number. -/
theorem readOn_padded (part places : Nat) : readOn 10 0 (padded part places) = some part := by
  rw [padded, readOn_append, readOn_zeros, Option.bind_some, zero_mul, readOn_toDigits]

/-- Padded digits have the width that they are padded to. -/
theorem length_padded (hplaces : 0 < places) (h : part < 10 ^ places) :
    (padded part places).length = places := by
  have hle := (Nat.length_toDigits_le_iff (by decide) hplaces).2 h
  rw [padded, List.length_append, List.length_replicate]
  omega

/-- The zeros that were left out are as many as decimals are missing. -/
theorem padded_eq (hplaces : 0 < places) (h : part < 10 ^ places) :
    padded part places = decimals part places ++
      List.replicate (places - (decimals part places).length) '0' := by
  have hzeros : (padded part places).reverse.takeWhile (· == '0') =
      List.replicate ((padded part places).reverse.takeWhile (· == '0')).length '0' :=
    List.eq_replicate_iff.2 ⟨rfl, fun c hc =>
      eq_of_beq (List.mem_takeWhile_imp (p := (· == '0')) hc)⟩
  have hall : padded part places = decimals part places ++
      List.replicate ((padded part places).reverse.takeWhile (· == '0')).length '0' := by
    calc padded part places
        = ((padded part places).reverse.takeWhile (· == '0') ++
            (padded part places).reverse.dropWhile (· == '0')).reverse := by
          rw [List.takeWhile_append_dropWhile, List.reverse_reverse]
      _ = decimals part places ++
            ((padded part places).reverse.takeWhile (· == '0')).reverse := by
          rw [List.reverse_append, decimals]
      _ = _ := by rw [hzeros, List.reverse_replicate, List.length_replicate]
  have hlength := congrArg List.length hall
  rw [List.length_append, List.length_replicate, length_padded hplaces h] at hlength
  rw [show places - (decimals part places).length =
    ((padded part places).reverse.takeWhile (· == '0')).length by omega]
  exact hall

/-- A fraction is identified by its decimals. -/
theorem eq_of_decimals_eq (h : part < 10 ^ places) (h' : part' < 10 ^ places)
    (heq : decimals part places = decimals part' places) : part = part' := by
  rcases Nat.eq_zero_or_pos places with rfl | hplaces
  · omega
  · have hpadded : padded part places = padded part' places := by
      rw [padded_eq hplaces h, padded_eq hplaces h', heq]
    have hread := readOn_padded part places
    rw [hpadded, readOn_padded] at hread
    exact (Option.some.inj hread).symm

/-- Decimals are digits. -/
theorem isDigit_of_mem_decimals {c : Char} (h : c ∈ decimals part places) : isDigit c = true := by
  rw [decimals, List.mem_reverse] at h
  have hmem := List.mem_reverse.1 ((List.dropWhile_sublist _).mem h)
  rcases List.mem_append.1 hmem with hzero | hdigit
  · exact allDigits_zeros _ c hzero
  · exact isDigit_of_mem_toDigits hdigit

/-- Digits belong to decimal numbers. -/
theorem inDecimal_of_isDigit {c : Char} (h : isDigit c = true) : inDecimal c = true := by
  rw [inDecimal, h, Bool.true_or]

/-- The fraction of a span begins with a point, and digits follow. -/
theorem fractionText_chars (part places : Nat) :
    (∀ c ∈ (fractionText part places).toList, inDecimal c = true) ∧
      ∀ c ∈ (fractionText part places).toList.head?, c = '.' := by
  rw [toList_fractionText]
  split
  · exact ⟨fun c hc => (by cases hc), fun c hc => (by cases hc)⟩
  · refine ⟨fun c hc => ?_, fun c hc => (Option.some.inj hc).symm⟩
    rcases List.mem_cons.1 hc with rfl | hdigit
    · rfl
    · exact inDecimal_of_isDigit (isDigit_of_mem_decimals hdigit)

/-- Parts of one unit with the same decimals are equal. -/
theorem eq_of_fractionText_eq (h : part < 10 ^ places) (h' : part' < 10 ^ places)
    (heq : (fractionText part places).toList = (fractionText part' places).toList) :
    part = part' := by
  refine eq_of_decimals_eq h h' ?_
  rw [toList_fractionText, toList_fractionText] at heq
  split at heq
  · rename_i hempty
    split at heq
    · rename_i hempty'
      rw [List.isEmpty_iff.1 hempty, List.isEmpty_iff.1 hempty']
    · cases heq
  · split at heq
    · cases heq
    · exact List.cons.inj heq |>.2

/-- A span is written in one of the units. -/
theorem exists_unit (a : Span) : ∃ u ∈ units, a.text.toList =
    Nat.toDigits 10 (a.nanos / 10 ^ u.1) ++
      ((fractionText (a.nanos % 10 ^ u.1) u.1).toList ++ u.2.toList) := by
  have htext (u : Nat × String) (h : a.text = inUnit a.nanos u.1 u.2) : a.text.toList =
      Nat.toDigits 10 (a.nanos / 10 ^ u.1) ++
        ((fractionText (a.nanos % 10 ^ u.1) u.1).toList ++ u.2.toList) := by
    rw [h, inUnit, String.toList_append, String.toList_append, toList_toString, List.append_assoc,
      Nat.pow_eq]
  by_cases hseconds : 1_000_000_000 ≤ a.nanos
  · exact ⟨(9, "s"), by simp [units], htext (9, "s") (by rw [text, if_pos hseconds])⟩
  by_cases hmillis : 1_000_000 ≤ a.nanos
  · exact ⟨(6, "ms"), by simp [units],
      htext (6, "ms") (by rw [text, if_neg hseconds, if_pos hmillis])⟩
  by_cases hmicros : 1_000 ≤ a.nanos
  · exact ⟨(3, "µs"), by simp [units],
      htext (3, "µs") (by rw [text, if_neg hseconds, if_neg hmillis, if_pos hmicros])⟩
  · exact ⟨(0, "ns"), by simp [units],
      htext (0, "ns") (by rw [text, if_neg hseconds, if_neg hmillis, if_neg hmicros])⟩

/-- What no character of a unit is can be decided for all of them. -/
theorem units_chars {p : Char → Bool} (h : (units.all fun u => u.2.toList.all fun c => !p c) = true)
    {u : Nat × String} (hu : u ∈ units) {c : Char} (hc : c ∈ u.2.toList) : p c = false := by
  have hchar := List.all_eq_true.1 (List.all_eq_true.1 h u hu) c hc
  rwa [Bool.not_eq_true'] at hchar

/-- No two units share a name. -/
theorem units_inj : ∀ u ∈ units, ∀ v ∈ units, u.2.toList = v.2.toList → u = v := by decide +kernel

/-- **A span is identified by its text.** -/
theorem text_inj {a b : Span} (h : a.text = b.text) : a = b := by
  obtain ⟨u, hu, ha⟩ := exists_unit a
  obtain ⟨v, hv, hb⟩ := exists_unit b
  rw [h, hb, ← List.append_assoc, ← List.append_assoc] at ha
  have hnumber (n : Nat) (w : Nat × String) :
      ∀ c ∈ Nat.toDigits 10 (n / 10 ^ w.1) ++ (fractionText (n % 10 ^ w.1) w.1).toList,
        inDecimal c = true := by
    intro c hc
    rcases List.mem_append.1 hc with hdigit | hfraction
    · exact inDecimal_of_isDigit (isDigit_of_mem_toDigits hdigit)
    · exact (fractionText_chars _ _).1 c hfraction
  have hunit : (units.all fun u => u.2.toList.all fun c => !inDecimal c) = true := by
    decide +kernel
  -- The text is a number and a unit, and the unit is where the first character stands that is in no
  -- number.
  obtain ⟨hnumbers, hunits⟩ := Text.append_inj_of_kind (hnumber b.nanos v) (hnumber a.nanos u)
    (fun c hc => units_chars hunit hv (List.mem_of_mem_head? hc))
    (fun c hc => units_chars hunit hu (List.mem_of_mem_head? hc)) ha
  obtain rfl := units_inj v hv u hu hunits
  have hpoint (n : Nat) :
      ∀ c ∈ (fractionText (n % 10 ^ v.1) v.1).toList.head?, isDigit c = false := by
    intro c hc
    rw [(fractionText_chars _ _).2 c hc]
    decide
  -- In the same way the point separates the whole part from the fraction.
  obtain ⟨hwhole, hfraction⟩ := Text.append_inj_of_kind
    (fun c hc => isDigit_of_mem_toDigits hc) (fun c hc => isDigit_of_mem_toDigits hc)
    (hpoint b.nanos) (hpoint a.nanos) hnumbers
  have hdiv : b.nanos / 10 ^ v.1 = a.nanos / 10 ^ v.1 := by
    have hread := congrArg (readOn 10 0) hwhole
    rw [readOn_toDigits, readOn_toDigits] at hread
    exact Option.some.inj hread
  have hlt (n : Nat) : n % 10 ^ v.1 < 10 ^ v.1 := Nat.mod_lt n (Nat.pow_pos (by decide))
  have hmod : b.nanos % 10 ^ v.1 = a.nanos % 10 ^ v.1 :=
    eq_of_fractionText_eq (hlt _) (hlt _) hfraction
  refine ext_nanos ?_
  rw [← Nat.div_add_mod a.nanos (10 ^ v.1), ← Nat.div_add_mod b.nanos (10 ^ v.1), hdiv, hmod]

end Span

/-! ## Words -/

/-- Whether a character is one of those that stand behind a number or a span. -/
def isMark (c : Char) : Bool := c == ' ' || c == ',' || c == ')'

/-- Whether a text holds no mark. -/
def IsWord (s : List Char) : Prop := ∀ c ∈ s, isMark c = false

/-- Whether a text begins with a mark, so that a word ends in front of it. -/
def EndsWord (s : List Char) : Prop := s.head?.any isMark = true

section Words

variable {a b s t : List Char}

/-- Two words that are followed by marks are told apart: they end at the first mark. -/
theorem IsWord.append_inj (ha : IsWord a) (hb : IsWord b) (hs : EndsWord s) (ht : EndsWord t)
    (h : a ++ s = b ++ t) : a = b ∧ s = t := by
  have hword {w : List Char} (hw : IsWord w) : ∀ c ∈ w, (!isMark c) = true :=
    fun c hc => by rw [hw c hc]; rfl
  have hends {w : List Char} (hw : EndsWord w) : ∀ c ∈ w.head?, (!isMark c) = false := by
    intro c hc
    rw [EndsWord, hc, Option.any_some] at hw
    rw [hw, Bool.not_true]
  exact Text.append_inj_of_kind (hword ha) (hword hb) (hends hs) (hends ht) h

/-- What begins with a mark does so whatever follows. -/
theorem EndsWord.append (hs : EndsWord s) (t : List Char) : EndsWord (s ++ t) := by
  cases s with
  | nil => cases hs
  | cons c s => exact hs

/-- No character of a decimal number is a mark. -/
theorem isMark_of_inDecimal {c : Char} (h : Span.inDecimal c = true) : isMark c = false := by
  rw [Bool.eq_false_iff]
  intro hmark
  rw [isMark, Bool.or_eq_true, Bool.or_eq_true, beq_iff_eq, beq_iff_eq, beq_iff_eq] at hmark
  rcases hmark with (rfl | rfl) | rfl <;> exact absurd h (by decide)

/-- Numbers are words, -/
theorem isWord_toDigits (n : Nat) : IsWord (Nat.toDigits 10 n) :=
  fun _ hc => isMark_of_inDecimal (Span.inDecimal_of_isDigit (isDigit_of_mem_toDigits hc))

/-- and so are spans. -/
theorem isWord_text (a : Span) : IsWord a.text.toList := by
  have hunits : (Span.units.all fun u => u.2.toList.all fun c => !isMark c) = true := by
    decide +kernel
  obtain ⟨u, hu, htext⟩ := Span.exists_unit a
  intro c hc
  rw [htext] at hc
  rcases List.mem_append.1 hc with hwhole | hc
  · exact isWord_toDigits _ c hwhole
  · rcases List.mem_append.1 hc with hfraction | hunit
    · exact isMark_of_inDecimal ((Span.fractionText_chars _ _).1 c hfraction)
    · exact Span.units_chars hunits hu hunit

/-- A number in front of a mark is read off a text. -/
theorem toDigits_append_inj {n m : Nat} (hs : EndsWord s) (ht : EndsWord t)
    (h : Nat.toDigits 10 n ++ s = Nat.toDigits 10 m ++ t) : n = m ∧ s = t := by
  obtain ⟨hdigits, hrest⟩ := (isWord_toDigits n).append_inj (isWord_toDigits m) hs ht h
  have hread := congrArg (readOn 10 0) hdigits
  rw [readOn_toDigits, readOn_toDigits] at hread
  exact ⟨Option.some.inj hread, hrest⟩

/-- So is a span. -/
theorem span_append_inj {a b : Span} (hs : EndsWord s) (ht : EndsWord t)
    (h : a.text.toList ++ s = b.text.toList ++ t) : a = b ∧ s = t := by
  obtain ⟨htext, hrest⟩ := (isWord_text a).append_inj (isWord_text b) hs ht h
  exact ⟨Span.text_inj (String.toList_inj.1 htext), hrest⟩

end Words

/-! ## Executors -/

/-- The end of the text of a ramp. -/
def RampShape.ending (shape : RampShape) : List Char :=
  (if shape = .step then ", step" else "").toList ++ ")".toList

/-- The text of some stages. -/
def stagesChars (stages : List Stage) : List Char := stages.flatMap fun stage => stage.text.toList

section Executors

variable {shape shape' : RampShape}

/-- What stands behind the stages begins with a mark. -/
theorem RampShape.endsWord_ending (shape : RampShape) : EndsWord shape.ending := by
  cases shape <;> unfold EndsWord <;> decide

/-- No stage begins like the end of a ramp. -/
theorem RampShape.head?_ending (shape : RampShape) : shape.ending.head? ≠ some ' ' := by
  cases shape <;> decide

/-- The two shapes end differently. -/
theorem RampShape.ending_inj (h : shape.ending = shape'.ending) : shape = shape' := by
  cases shape <;> cases shape' <;> first | rfl | exact absurd h (by decide)

/-- The text of a stage, and what follows it. -/
theorem stagesChars_cons (stage : Stage) (rest : List Stage) (s : List Char) :
    stagesChars (stage :: rest) ++ s = " -> ".toList ++ (Nat.toDigits 10 stage.target ++
      (" over ".toList ++ (stage.duration.text.toList ++ (stagesChars rest ++ s)))) := by
  rw [stagesChars, List.flatMap_cons, ← stagesChars, Stage.text, String.toList_append,
    String.toList_append, String.toList_append, Span.toList_toString]
  simp only [List.append_assoc]

/-- Every stage begins with a blank, so the end of the stages is seen. -/
theorem head?_stagesChars_cons (stage : Stage) (rest : List Stage) (s : List Char) :
    (stagesChars (stage :: rest) ++ s).head? = some ' ' := by
  rw [stagesChars_cons, List.head?_append, show " -> ".toList.head? = some ' ' by decide,
    Option.some_or]

/-- Another stage begins with a mark, and so does the end of the ramp. -/
theorem endsWord_stagesChars (stages : List Stage) (shape : RampShape) :
    EndsWord (stagesChars stages ++ shape.ending) := by
  cases stages with
  | nil => exact shape.endsWord_ending
  | cons stage rest => rw [EndsWord, head?_stagesChars_cons, Option.any_some]; rfl

/-- Stages and shape of a ramp are identified by their text. -/
theorem stagesChars_inj {stages stages' : List Stage}
    (h : stagesChars stages ++ shape.ending = stagesChars stages' ++ shape'.ending) :
    stages = stages' ∧ shape = shape' := by
  -- Stage after stage: what follows a stage begins with a mark that no number contains.
  induction stages generalizing stages' with
  | nil =>
    cases stages' with
    | nil => exact ⟨rfl, RampShape.ending_inj h⟩
    | cons stage rest =>
      -- A list that ends earlier would have to go on with a blank, which no ending begins with.
      have hhead : shape.ending.head? = some ' ' := by
        rw [← head?_stagesChars_cons stage rest shape'.ending, ← h]
        rfl
      exact absurd hhead shape.head?_ending
  | cons stage rest ih =>
    cases stages' with
    | nil =>
      have hhead : shape'.ending.head? = some ' ' := by
        rw [← head?_stagesChars_cons stage rest shape.ending, h]
        rfl
      exact absurd hhead shape'.head?_ending
    | cons stage' rest' =>
      rw [stagesChars_cons, stagesChars_cons] at h
      have hover : EndsWord " over ".toList := by unfold EndsWord; decide
      obtain ⟨htarget, h⟩ := toDigits_append_inj (hover.append _) (hover.append _)
        (List.append_cancel_left h)
      obtain ⟨hduration, h⟩ := span_append_inj (endsWord_stagesChars rest shape)
        (endsWord_stagesChars rest' shape') (List.append_cancel_left h)
      obtain ⟨rfl, hshape⟩ := ih h
      obtain ⟨duration, target⟩ := stage
      obtain ⟨duration', target'⟩ := stage'
      obtain rfl : target = target' := htarget
      obtain rfl : duration = duration' := hduration
      exact ⟨rfl, hshape⟩

end Executors

namespace Executor

variable {n n' k k' : Nat} {d d' : Span}

/-- The text of a fixed number of iterations, part by part. -/
theorem toList_fixed (n k : Nat) : (fixedIterations n k).text.toList =
    "fixed-iterations(".toList ++ (Nat.toDigits 10 n ++
      (" x ".toList ++ (Nat.toDigits 10 k ++ ")".toList))) := by
  show ("fixed-iterations(" ++ toString n ++ " x " ++ toString k ++ ")").toList = _
  rw [String.toList_append, String.toList_append, String.toList_append, String.toList_append,
    Span.toList_toString, Span.toList_toString]
  simp only [List.append_assoc]

/-- The text of a constant number of users, part by part. -/
theorem toList_constant (k : Nat) (d : Span) : (constantConcurrency k d).text.toList =
    "constant-concurrency(".toList ++ (Nat.toDigits 10 k ++
      (" for ".toList ++ (d.text.toList ++ ")".toList))) := by
  show ("constant-concurrency(" ++ toString k ++ " for " ++ d.text ++ ")").toList = _
  rw [String.toList_append, String.toList_append, String.toList_append, String.toList_append,
    Span.toList_toString]
  simp only [List.append_assoc]

/-- The text of a ramp, part by part. -/
theorem toList_ramping (k : Nat) (stages : List Stage) (shape : RampShape) :
    (rampingConcurrency k stages shape).text.toList =
      "ramping-concurrency(".toList ++ (Nat.toDigits 10 k ++
        (stagesChars stages ++ shape.ending)) := by
  have hjoin : (String.join (stages.map Stage.text)).toList = stagesChars stages := by
    rw [stagesChars, String.toList_join, List.flatMap_map]
  show ("ramping-concurrency(" ++ toString k ++ String.join (stages.map Stage.text) ++
    (if shape = .step then ", step" else "") ++ ")").toList = _
  rw [String.toList_append, String.toList_append, String.toList_append, String.toList_append,
    Span.toList_toString, hjoin, RampShape.ending]
  simp only [List.append_assoc]

/-- Two fixed numbers of iterations with the same text are equal. -/
theorem fixed_inj (h : (fixedIterations n k).text.toList = (fixedIterations n' k').text.toList) :
    fixedIterations n k = fixedIterations n' k' := by
  have htimes : EndsWord " x ".toList := by unfold EndsWord; decide
  have hclosing : EndsWord ")".toList := by unfold EndsWord; decide
  rw [toList_fixed, toList_fixed] at h
  obtain ⟨rfl, hrest⟩ := toDigits_append_inj (htimes.append _) (htimes.append _)
    (List.append_cancel_left h)
  obtain ⟨rfl, -⟩ := toDigits_append_inj hclosing hclosing (List.append_cancel_left hrest)
  rfl

/-- Two constant numbers of users with the same text are equal. -/
theorem constant_inj
    (h : (constantConcurrency k d).text.toList = (constantConcurrency k' d').text.toList) :
    constantConcurrency k d = constantConcurrency k' d' := by
  have hfor : EndsWord " for ".toList := by unfold EndsWord; decide
  have hclosing : EndsWord ")".toList := by unfold EndsWord; decide
  rw [toList_constant, toList_constant] at h
  obtain ⟨rfl, hrest⟩ := toDigits_append_inj (hfor.append _) (hfor.append _)
    (List.append_cancel_left h)
  obtain ⟨rfl, -⟩ := span_append_inj hclosing hclosing (List.append_cancel_left hrest)
  rfl

/-- Two ramps with the same text are equal. -/
theorem ramping_inj {stages stages' : List Stage} {shape shape' : RampShape}
    (h : (rampingConcurrency k stages shape).text.toList =
      (rampingConcurrency k' stages' shape').text.toList) :
    rampingConcurrency k stages shape = rampingConcurrency k' stages' shape' := by
  rw [toList_ramping, toList_ramping] at h
  obtain ⟨rfl, hrest⟩ := toDigits_append_inj (endsWord_stagesChars stages shape)
    (endsWord_stagesChars stages' shape') (List.append_cancel_left h)
  obtain ⟨rfl, rfl⟩ := stagesChars_inj hrest
  rfl

/-- The first character of the text of an executor, which tells the kinds of executors apart. -/
def initial : Executor → Char
  | fixedIterations .. => 'f'
  | constantConcurrency .. => 'c'
  | rampingConcurrency .. => 'r'

/-- The first character of a text tells the kind of executor. -/
theorem head?_text (e : Executor) : e.text.toList.head? = some e.initial := by
  cases e with
  | fixedIterations n k =>
    rw [toList_fixed, List.head?_append,
      show "fixed-iterations(".toList.head? = some 'f' by decide, Option.some_or, initial]
  | constantConcurrency k d =>
    rw [toList_constant, List.head?_append,
      show "constant-concurrency(".toList.head? = some 'c' by decide, Option.some_or, initial]
  | rampingConcurrency k stages shape =>
    rw [toList_ramping, List.head?_append,
      show "ramping-concurrency(".toList.head? = some 'r' by decide, Option.some_or, initial]

/-- **The text of an executor identifies it.**  Whatever their numbers, spans and stages are, two
executors have the same text only if they are the same. -/
theorem text_eq_text_iff (e e' : Executor) : e.text = e'.text ↔ e = e' := by
  refine ⟨fun h => ?_, fun h => by rw [h]⟩
  replace h : e.text.toList = e'.text.toList := congrArg String.toList h
  have hinitial : e.initial = e'.initial := by
    apply Option.some.inj
    rw [← head?_text, ← head?_text, h]
  cases e with
  | fixedIterations n k =>
    cases e' with
    | fixedIterations n' k' => exact fixed_inj h
    | _ => simp [initial] at hinitial
  | constantConcurrency k d =>
    cases e' with
    | constantConcurrency k' d' => exact constant_inj h
    | _ => simp [initial] at hinitial
  | rampingConcurrency k stages shape =>
    cases e' with
    | rampingConcurrency k' stages' shape' => exact ramping_inj h
    | _ => simp [initial] at hinitial

end Executor

end LoadReplay
