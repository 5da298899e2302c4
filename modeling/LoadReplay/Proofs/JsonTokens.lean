import LoadReplay.Json.Writer
import Mathlib.Data.List.TakeWhile

/-!
# Written tokens are read again

A number text ends where no character can continue it (`Ends`); every other token tells by itself
where it ends.  So a token that is written in front of another text is the first one that is read
from both together, and the rest is left (`token?_chars`), provided that the reader gets the value
of its text alone (`Token.ReadsBack`).  That holds of all texts and of all whole numbers of 64 bits;
of the other numbers it has to be asked, since they are not always read to the nearest value.

The characters of a number that was read are known (`scanNumber_chars`), whatever wrote them, and
texts have their line breaks escaped: no token holds a line break.

Main statement: `lex_token`.
-/

namespace LoadReplay.Json

/-! ## Number texts in front of other texts -/

/-- Whether a character may follow one of a number within the number. -/
def continuesNumber (c : Char) : Bool := Number.isDigit c || c == '.' || c == 'e' || c == 'E'

/-- Whether a number ends in front of a text. -/
def Ends (rest : List Char) : Prop := ∀ c ∈ rest.head?, continuesNumber c = false

/-- A number ends at the end of the text. -/
theorem ends_nil : Ends [] := fun c h => by cases h

/-- A number ends in front of a character that cannot continue it. -/
theorem ends_cons {c : Char} (rest : List Char) (h : continuesNumber c = false) :
    Ends (c :: rest) := by
  intro d hd
  cases hd
  exact h

theorem Ends.not_digit {c : Char} {rest : List Char} (h : Ends (c :: rest)) :
    Number.isDigit c = false := by
  have hc := h c rfl
  simp only [continuesNumber, Bool.or_eq_false_iff] at hc
  exact hc.1.1.1

theorem Ends.not_point {c : Char} {rest : List Char} (h : Ends (c :: rest)) : c ≠ '.' := by
  rintro rfl
  exact absurd (h '.' rfl) (by decide)

theorem Ends.not_exponent {c : Char} {rest : List Char} (h : Ends (c :: rest)) :
    ¬(c = 'e' ∨ c = 'E') := by
  rintro (rfl | rfl)
  · exact absurd (h 'e' rfl) (by decide)
  · exact absurd (h 'E' rfl) (by decide)

variable {s r rest : List Char}

/-- The digits in front of a text that ends a number are those that it would have alone. -/
theorem takeDigits_append (s : List Char) (hrest : Ends rest) :
    Number.takeDigits (s ++ rest) =
      ((Number.takeDigits s).1, (Number.takeDigits s).2 ++ rest) := by
  induction s with
  | nil =>
    cases rest with
    | nil => rfl
    | cons c rest =>
      have hc : ¬Number.isDigit c = true := by rw [hrest.not_digit]; exact Bool.false_ne_true
      simp only [Number.takeDigits, List.nil_append, List.takeWhile_cons_of_neg hc,
        List.dropWhile_cons_of_neg hc, List.takeWhile_nil, List.dropWhile_nil]
  | cons c s ih =>
    by_cases hc : Number.isDigit c = true
    · simp only [Number.takeDigits, List.cons_append, List.takeWhile_cons_of_pos hc,
        List.dropWhile_cons_of_pos hc, Prod.mk.injEq] at ih ⊢
      exact ⟨congrArg _ ih.1, ih.2⟩
    · simp only [Number.takeDigits, List.cons_append, List.takeWhile_cons_of_neg hc,
        List.dropWhile_cons_of_neg hc]

/-- So it is where at least one digit is needed. -/
theorem someDigits_append {d : List Char} (h : someDigits s = some (d, r)) (hrest : Ends rest) :
    someDigits (s ++ rest) = some (d, r ++ rest) := by
  unfold someDigits at h ⊢
  rw [takeDigits_append s hrest]
  dsimp only at h ⊢
  split at h
  · cases h
  · rename_i hne
    rw [if_neg hne]
    rw [Option.some.injEq] at h
    rw [h]

/-- Decimals are read alike in front of a text that ends a number. -/
theorem scanDecimals_append {d : List Char} (h : scanDecimals s = some (d, r))
    (hrest : Ends rest) : scanDecimals (s ++ rest) = some (d, r ++ rest) := by
  unfold scanDecimals at h
  split at h
  · rename_i s
    exact someDigits_append h hrest
  · rename_i hpoint
    cases h
    unfold scanDecimals
    split
    · rename_i t ht
      cases s with
      | nil =>
        rw [List.nil_append] at ht
        subst ht
        exact absurd rfl hrest.not_point
      | cons c s =>
        obtain ⟨rfl, -⟩ := List.cons.inj ht
        exact absurd rfl (hpoint s)
    · rfl

/-- A sign of an exponent needs no look at what follows. -/
theorem exponentSign_append (hs : s ≠ []) (rest : List Char) :
    exponentSign (s ++ rest) = ((exponentSign s).1, (exponentSign s).2 ++ rest) := by
  cases s with
  | nil => exact absurd rfl hs
  | cons c s =>
    unfold exponentSign
    rw [List.cons_append]
    split
    · rename_i h; cases h; rfl
    · rename_i h; cases h; rfl
    · -- Neither sign stands in front, and what is added behind does not change that.
      rename_i h₁ h₂
      split
      · rename_i h; cases h; exact absurd rfl (h₁ _)
      · rename_i h; cases h; exact absurd rfl (h₂ _)
      · rfl

/-- Exponents are read alike in front of a text that ends a number. -/
theorem scanExponent_append {e : Option (Bool × List Char)} (h : scanExponent s = some (e, r))
    (hrest : Ends rest) : scanExponent (s ++ rest) = some (e, r ++ rest) := by
  cases s with
  | nil =>
    cases h
    cases rest with
    | nil => rfl
    | cons c rest => rw [List.nil_append, scanExponent, if_neg hrest.not_exponent]
  | cons c s =>
    rw [List.cons_append, scanExponent]
    rw [scanExponent] at h
    split at h
    · rename_i hc
      rw [if_pos hc]
      obtain ⟨⟨d, t⟩, hd, heq⟩ := Option.map_eq_some_iff.1 h
      cases heq
      -- An exponent has digits, so its sign is not what follows the number.
      have hs : s ≠ [] := by
        rintro rfl
        cases hd
      dsimp only at hd ⊢
      rw [exponentSign_append hs, someDigits_append hd hrest]
      rfl
    · rename_i hc
      rw [if_neg hc]
      cases h
      rfl

/-- What a number without sign is read from. -/
theorem scanMagnitude_eq_some {negative : Bool} {t : NumberText} :
    scanMagnitude negative s = some (t, r) ↔
      ∃ r₁ r₂, someDigits s = some (t.whole, r₁) ∧
        ¬(t.whole.length ≠ 1 ∧ t.whole.head? = some '0') ∧
        scanDecimals r₁ = some (t.decimals, r₂) ∧ scanExponent r₂ = some (t.exponent, r) ∧
        t.negative = negative := by
  unfold scanMagnitude
  simp only [bind, Option.bind_eq_some_iff, pure]
  constructor
  · rintro ⟨⟨whole, r₁⟩, h₁, h⟩
    dsimp only at h
    split at h
    · cases h
    · rename_i hzero
      simp only [Option.bind_eq_some_iff] at h
      obtain ⟨⟨decimals, r₂⟩, h₂, ⟨exponent, r₃⟩, h₃, heq⟩ := h
      cases heq
      exact ⟨r₁, r₂, h₁, hzero, h₂, h₃, rfl⟩
  · rintro ⟨r₁, r₂, h₁, hzero, h₂, h₃, rfl⟩
    refine ⟨_, h₁, ?_⟩
    dsimp only
    rw [if_neg hzero]
    simp only [Option.bind_eq_some_iff]
    exact ⟨_, h₂, _, h₃, rfl⟩

/-- A number is read alike in front of a text that ends it. -/
theorem scanMagnitude_append {negative : Bool} {t : NumberText}
    (h : scanMagnitude negative s = some (t, r)) (hrest : Ends rest) :
    scanMagnitude negative (s ++ rest) = some (t, r ++ rest) := by
  obtain ⟨r₁, r₂, h₁, hzero, h₂, h₃, hnegative⟩ := scanMagnitude_eq_some.1 h
  exact scanMagnitude_eq_some.2 ⟨_, _, someDigits_append h₁ hrest, hzero,
    scanDecimals_append h₂ hrest, scanExponent_append h₃ hrest, hnegative⟩

/-- A number is read with a sign or without. -/
theorem scanNumber_eq_some {t : NumberText} (h : scanNumber s = some (t, r)) :
    (∃ s', s = '-' :: s' ∧ scanMagnitude true s' = some (t, r)) ∨
      (s.head? ≠ some '-' ∧ scanMagnitude false s = some (t, r)) := by
  unfold scanNumber at h
  split at h
  · exact .inl ⟨_, rfl, h⟩
  · rename_i hminus
    refine .inr ⟨fun hhead => ?_, h⟩
    obtain ⟨s', rfl⟩ := List.head?_eq_some_iff.1 hhead
    exact hminus s' rfl

/-- Without a minus sign a number is not negative. -/
theorem scanNumber_of_head?_ne (h : s.head? ≠ some '-') : scanNumber s = scanMagnitude false s := by
  unfold scanNumber
  split
  · exact absurd rfl h
  · rfl

/-- A number is read from the text in front of another one as it is from this text alone. -/
theorem scanNumber_append {t : NumberText} (h : scanNumber s = some (t, r)) (hrest : Ends rest) :
    scanNumber (s ++ rest) = some (t, r ++ rest) := by
  rcases scanNumber_eq_some h with ⟨s, rfl, h⟩ | ⟨hminus, h⟩
  · exact scanMagnitude_append h hrest
  · have happend := scanMagnitude_append h hrest
    cases s with
    | nil => cases h
    | cons c s =>
      have hhead : (c :: s ++ rest).head? ≠ some '-' := hminus
      rw [scanNumber_of_head?_ne hhead, happend]

/-! ## The characters of numbers -/

/-- Whether a character may stand in a number. -/
def inNumber (c : Char) : Bool := continuesNumber c || c == '-' || c == '+'

/-- Digits belong to numbers. -/
theorem inNumber_of_isDigit {c : Char} (h : Number.isDigit c = true) : inNumber c = true := by
  simp only [inNumber, continuesNumber, h, Bool.true_or]

/-- What is read as digits is digits, and they are taken off the front. -/
theorem someDigits_chars {d : List Char} (h : someDigits s = some (d, r)) :
    s = d ++ r ∧ d ≠ [] ∧ ∀ c ∈ d, Number.isDigit c = true := by
  unfold someDigits at h
  dsimp only at h
  split at h
  · cases h
  · rename_i hne
    cases h
    exact ⟨List.takeWhile_append_dropWhile.symm, fun hnil => hne (List.isEmpty_iff.2 hnil),
      fun c hc => List.mem_takeWhile_imp hc⟩

/-- The characters of some digits may stand in a number. -/
theorem inNumber_or_mem_of_someDigits {d : List Char} (h : someDigits s = some (d, r)) {c : Char}
    (hc : c ∈ s) : inNumber c = true ∨ c ∈ r := by
  obtain ⟨rfl, -, hd⟩ := someDigits_chars h
  rcases List.mem_append.1 hc with hc | hc
  · exact .inl (inNumber_of_isDigit (hd c hc))
  · exact .inr hc

/-- What is read as decimals are characters of a number. -/
theorem inNumber_or_mem_of_scanDecimals {d : List Char} (h : scanDecimals s = some (d, r))
    {c : Char} (hc : c ∈ s) : inNumber c = true ∨ c ∈ r := by
  unfold scanDecimals at h
  split at h
  · rcases List.mem_cons.1 hc with rfl | hc
    · exact .inl rfl
    · exact inNumber_or_mem_of_someDigits h hc
  · cases h
    exact .inr hc

/-- So is a sign of an exponent. -/
theorem inNumber_or_mem_of_exponentSign {c : Char} (hc : c ∈ s) :
    inNumber c = true ∨ c ∈ (exponentSign s).2 := by
  unfold exponentSign
  split
  · rcases List.mem_cons.1 hc with rfl | hc
    · exact .inl rfl
    · exact .inr hc
  · rcases List.mem_cons.1 hc with rfl | hc
    · exact .inl rfl
    · exact .inr hc
  · exact .inr hc

/-- What is read as an exponent are characters of a number. -/
theorem inNumber_or_mem_of_scanExponent {e : Option (Bool × List Char)}
    (h : scanExponent s = some (e, r)) {c : Char} (hc : c ∈ s) : inNumber c = true ∨ c ∈ r := by
  cases s with
  | nil => cases hc
  | cons first s =>
    rw [scanExponent] at h
    split at h
    · rename_i hfirst
      obtain ⟨⟨d, t⟩, hd, heq⟩ := Option.map_eq_some_iff.1 h
      cases heq
      rcases List.mem_cons.1 hc with rfl | hc
      · rcases hfirst with rfl | rfl
        · exact .inl rfl
        · exact .inl rfl
      · rcases inNumber_or_mem_of_exponentSign hc with hc | hc
        · exact .inl hc
        · exact inNumber_or_mem_of_someDigits hd hc
    · cases h
      exact .inr hc

/-- What is read as a magnitude are characters of a number. -/
theorem inNumber_or_mem_of_scanMagnitude {negative : Bool} {t : NumberText}
    (h : scanMagnitude negative s = some (t, r)) {c : Char} (hc : c ∈ s) :
    inNumber c = true ∨ c ∈ r := by
  obtain ⟨r₁, r₂, h₁, -, h₂, h₃, -⟩ := scanMagnitude_eq_some.1 h
  rcases inNumber_or_mem_of_someDigits h₁ hc with hc | hc
  · exact .inl hc
  · rcases inNumber_or_mem_of_scanDecimals h₂ hc with hc | hc
    · exact .inl hc
    · exact inNumber_or_mem_of_scanExponent h₃ hc

/-- A text that is one number has only characters that may stand in one. -/
theorem inNumber_of_scanNumber {t : NumberText} (h : scanNumber s = some (t, [])) {c : Char}
    (hc : c ∈ s) : inNumber c = true := by
  have hmem : inNumber c = true ∨ c ∈ [] := by
    rcases scanNumber_eq_some h with ⟨s, rfl, h⟩ | ⟨-, h⟩
    · rcases List.mem_cons.1 hc with rfl | hc
      · exact .inl rfl
      · exact inNumber_or_mem_of_scanMagnitude h hc
    · exact inNumber_or_mem_of_scanMagnitude h hc
  exact hmem.resolve_right List.not_mem_nil

/-- A number begins with a minus sign or a digit. -/
theorem head_of_scanNumber {c : Char} {t : NumberText} (h : scanNumber (c :: s) = some (t, r)) :
    c = '-' ∨ Number.isDigit c = true := by
  rcases scanNumber_eq_some h with ⟨s', heq, -⟩ | ⟨-, h⟩
  · exact .inl (List.cons.inj heq).1
  · obtain ⟨r₁, -, h₁, -⟩ := scanMagnitude_eq_some.1 h
    obtain ⟨heq, hne, hdigits⟩ := someDigits_chars h₁
    obtain ⟨first, more, hwhole⟩ := List.exists_cons_of_ne_nil hne
    rw [hwhole] at heq hdigits
    rw [(List.cons.inj heq).1]
    exact .inr (hdigits first List.mem_cons_self)

/-! ## Whole numbers -/

/-- The digits of a positive number do not begin with a zero. -/
theorem head?_toDigits_ne_zero {n : Nat} (h : n ≠ 0) : (Nat.toDigits 10 n).head? ≠ some '0' := by
  have hdigit : ∀ d : Fin 10, d.val ≠ 0 → Nat.digitChar d ≠ '0' := by decide
  induction n using Nat.strongRecOn with
  | ind n ih =>
    rcases Nat.lt_or_ge n 10 with hn | hn
    · rw [Nat.toDigits_of_lt_base hn, List.head?_cons]
      exact fun heq => hdigit ⟨n, hn⟩ h (Option.some.inj heq)
    · rw [Nat.toDigits_of_base_le (by omega) hn]
      obtain ⟨c, more, hdigits⟩ :=
        List.exists_cons_of_ne_nil (Nat.toDigits_ne_nil (b := 10) (n := n / 10))
      have hhead := ih (n / 10) (by omega) (by omega)
      rw [hdigits] at hhead ⊢
      exact hhead

/-- The digits of a number are read as a whole number. -/
theorem scanMagnitude_toDigits (negative : Bool) (n : Nat) :
    scanMagnitude negative (Nat.toDigits 10 n) =
      some (⟨negative, Nat.toDigits 10 n, [], none⟩, []) := by
  have hall : ∀ c ∈ Nat.toDigits 10 n, Number.isDigit c = true :=
    fun c => Number.isDigit_of_mem_toDigits
  have htake : Number.takeDigits (Nat.toDigits 10 n) = (Nat.toDigits 10 n, []) := by
    rw [Number.takeDigits, List.takeWhile_eq_self_iff.2 hall, List.dropWhile_eq_nil_iff.2 hall]
  refine scanMagnitude_eq_some.2 ⟨[], [], ?_, ?_, rfl, rfl, rfl⟩
  · unfold someDigits
    rw [htake]
    exact if_neg fun hempty => Nat.toDigits_ne_nil (List.isEmpty_iff.1 hempty)
  · rintro ⟨hlen, hhead⟩
    by_cases hn : n = 0
    · subst hn
      exact hlen rfl
    · exact head?_toDigits_ne_zero hn hhead

/-- The digits that are gathered are the value as long as it fits. -/
theorem gather_of_readOn {acc v : Nat} {digits : List Char}
    (hdigits : Number.readOn 10 acc digits = some v) (hv : v < Nat.pow 2 64) :
    acc ≤ v ∧ gather acc digits = (v, 0) := by
  induction digits generalizing acc with
  | nil =>
    cases hdigits
    exact ⟨Nat.le_refl _, rfl⟩
  | cons c rest ih =>
    -- Every step only makes the number greater, so what fits at the end fits all the time.
    rw [Number.readOn] at hdigits
    obtain ⟨d, hd, hrest⟩ := Option.bind_eq_some_iff.1 hdigits
    obtain ⟨hle, hgather⟩ := ih hrest
    rw [gather, (Number.digitValue?_eq_some.1 hd).2, if_pos (by omega), hgather]
    exact ⟨by omega, rfl⟩

/-- Whether a number is read from its own text. -/
def Numeral.ReadsBack (n : Numeral) : Prop :=
  ∃ t, scanNumber n.chars = some (t, []) ∧ t.value = n

/-- The value of digits without decimals or an exponent is whole, if it fits in 64 bits. -/
theorem value_whole {negative : Bool} {n : Nat} (h : n < Nat.pow 2 64) :
    NumberText.value ⟨negative, Nat.toDigits 10 n, [], none⟩ = .ofWhole negative n := by
  have hgather := (gather_of_readOn (Number.readOn_toDigits n) h).2
  unfold NumberText.value
  rw [hgather]
  rfl

/-- Every count of 64 bits is read back. -/
theorem Numeral.readsBack_count {n : Nat} (h : n < Nat.pow 2 64) : (Numeral.count n).ReadsBack := by
  refine ⟨⟨false, Nat.toDigits 10 n, [], none⟩, ?_, value_whole h⟩
  have hhead : (Nat.toDigits 10 n).head? ≠ some '-' := by
    intro hminus
    have hdigit := Number.isDigit_of_mem_toDigits (List.mem_of_mem_head? hminus)
    exact absurd hdigit (by decide)
  exact (scanNumber_of_head?_ne hhead).trans (scanMagnitude_toDigits false n)

/-- Every negative number down to the least one of 64 bits is read back. -/
theorem Numeral.readsBack_negative {n : Nat} (hpos : n ≠ 0) (h : n ≤ Nat.pow 2 63) :
    (Numeral.negative n).ReadsBack := by
  have hlt : n < Nat.pow 2 64 := Nat.lt_of_le_of_lt h (by decide)
  refine ⟨⟨true, Nat.toDigits 10 n, [], none⟩, scanMagnitude_toDigits true n, ?_⟩
  rw [value_whole hlt, Numeral.ofWhole, if_neg (by decide), if_pos ⟨hpos, h⟩]

/-! ## Texts -/

/-- The hexadecimal form of a character below the space is read as this character. -/
theorem hexUnit_hexDigit {n : Nat} (h : n < 32) :
    hexUnit '0' '0' (hexDigit (n / 16)) (hexDigit (n % 16)) = some n := by
  have hall : ∀ n : Fin 32,
      hexUnit '0' '0' (hexDigit (n.val / 16)) (hexDigit (n.val % 16)) = some n.val := by decide
  exact hall ⟨n, h⟩

/-- A character that is written as itself. -/
theorem scanText_plain {c : Char} (hquote : c ≠ quote) (hbackslash : c ≠ backslash)
    (hlow : ¬c.toNat < 32) (rest : List Char) :
    scanText none (c :: rest) = (scanText none rest).map (Scanned.push c) := by
  conv => lhs; unfold scanText
  dsimp only
  rw [if_neg hquote, if_neg hbackslash, if_neg hlow]
  rfl

/-- A character that is written with one letter behind a backslash. -/
theorem scanText_letter {e c : Char} (he : e ≠ 'u') (hc : unescape? e = some c) (rest : List Char) :
    scanText none (backslash :: e :: rest) = (scanText none rest).map (Scanned.push c) := by
  rw [scanText, if_neg (by decide), if_pos rfl, hc]
  · rfl
  · exact fun _ _ _ _ _ h => absurd h he

/-- A character that is written in hexadecimal. -/
theorem scanText_hexadecimal {c : Char} (hlow : c.toNat < 32) (rest : List Char) :
    scanText none (backslash :: 'u' :: '0' :: '0' :: hexDigit (c.toNat / 16)
      :: hexDigit (c.toNat % 16) :: rest) = (scanText none rest).map (Scanned.push c) := by
  have hhigh : ¬isHighHalf c.toNat = true := by
    simp only [isHighHalf, Bool.and_eq_true, decide_eq_true_eq]
    omega
  have hlowHalf : ¬isLowHalf c.toNat = true := by
    simp only [isLowHalf, Bool.and_eq_true, decide_eq_true_eq]
    omega
  rw [scanText, if_neg (by decide), if_pos rfl, hexUnit_hexDigit hlow]
  dsimp only
  rw [if_neg hhigh, if_neg hlowHalf, Char.ofNat_toNat]

/-- The three ways in which a character is written. -/
theorem escape_cases (c : Char) :
    (∃ e, escape c = [backslash, e] ∧ e ≠ 'u' ∧ e ≠ '\n' ∧ unescape? e = some c) ∨
      (c.toNat < 32 ∧
        escape c = [backslash, 'u', '0', '0', hexDigit (c.toNat / 16), hexDigit (c.toNat % 16)]) ∨
      (c ≠ quote ∧ c ≠ backslash ∧ ¬c.toNat < 32 ∧ escape c = [c]) := by
  -- Seven characters have a letter of their own.
  have hletter : ∀ e : Char, e ≠ 'u' → e ≠ '\n' → unescape? e = some c →
      ∃ e', [backslash, e] = [backslash, e'] ∧ e' ≠ 'u' ∧ e' ≠ '\n' ∧ unescape? e' = some c :=
    fun e hu hnewline he => ⟨e, rfl, hu, hnewline, he⟩
  unfold escape
  split
  · rename_i h; subst h; exact .inl (hletter quote (by decide) (by decide) (by decide))
  split
  · rename_i h; subst h; exact .inl (hletter backslash (by decide) (by decide) (by decide))
  split
  · rename_i h; subst h; exact .inl (hletter 'b' (by decide) (by decide) (by decide))
  split
  · rename_i h; subst h; exact .inl (hletter 'f' (by decide) (by decide) (by decide))
  split
  · rename_i h; subst h; exact .inl (hletter 'n' (by decide) (by decide) (by decide))
  split
  · rename_i h; subst h; exact .inl (hletter 'r' (by decide) (by decide) (by decide))
  split
  · rename_i h; subst h; exact .inl (hletter 't' (by decide) (by decide) (by decide))
  split
  · rename_i hlow
    exact .inr (.inl ⟨hlow, rfl⟩)
  · rename_i hquote hbackslash _ _ _ _ _ hlow
    exact .inr (.inr ⟨hquote, hbackslash, hlow, rfl⟩)

/-- Every character is read from the way it is written. -/
theorem scanText_escape (c : Char) (rest : List Char) :
    scanText none (escape c ++ rest) = (scanText none rest).map (Scanned.push c) := by
  rcases escape_cases c with ⟨e, heq, he, -, hc⟩ | ⟨hlow, heq⟩ | ⟨hquote, hbackslash, hlow, heq⟩
  · rw [heq]
    exact scanText_letter he hc rest
  · rw [heq]
    exact scanText_hexadecimal hlow rest
  · rw [heq]
    exact scanText_plain hquote hbackslash hlow rest

/-- An escaped text is read to its end at the first plain quote. -/
theorem scanText_flatMap_escape (s rest : List Char) :
    scanText none (s.flatMap escape ++ quote :: rest) = some (some s, rest) := by
  induction s with
  | nil =>
    rw [List.flatMap_nil, List.nil_append]
    unfold scanText
    exact if_pos rfl
  | cons c s ih =>
    rw [List.flatMap_cons, List.append_assoc, scanText_escape, ih]
    rfl

/-- Line breaks are escaped, and no escape holds one. -/
theorem newline_not_mem_escape (c : Char) : '\n' ∉ escape c := by
  have hhex : ∀ d : Fin 32, '\n' ∉ [backslash, 'u', '0', '0', hexDigit (d.val / 16),
      hexDigit (d.val % 16)] := by decide
  rcases escape_cases c with ⟨e, heq, -, he, -⟩ | ⟨hlow, heq⟩ | ⟨-, -, hlow, heq⟩
  · rw [heq, List.mem_cons, List.mem_singleton]
    rintro (h | h)
    · exact absurd h (by decide)
    · exact he h.symm
  · rw [heq]
    exact hhex ⟨c.toNat, hlow⟩
  · rw [heq, List.mem_singleton]
    rintro rfl
    exact hlow (by decide)

/-! ## Tokens -/

/-- Whether the value of a token is read from its own text. -/
def Token.ReadsBack : Token → Prop
  | .number n => n.ReadsBack
  | .text t => t.isSome
  | _ => True

@[simp] theorem readsBack_openList : Token.openList.ReadsBack := trivial

@[simp] theorem readsBack_closeList : Token.closeList.ReadsBack := trivial

@[simp] theorem readsBack_openRecord : Token.openRecord.ReadsBack := trivial

@[simp] theorem readsBack_closeRecord : Token.closeRecord.ReadsBack := trivial

@[simp] theorem readsBack_comma : Token.comma.ReadsBack := trivial

@[simp] theorem readsBack_colon : Token.colon.ReadsBack := trivial

@[simp] theorem readsBack_text {t : Text} : (Token.text t).ReadsBack ↔ t.isSome := Iff.rfl

/-- Whether a token tells by itself where it ends. -/
def Token.isClosed : Token → Bool
  | .number _ => false
  | _ => true

/-- A character that begins no other token than a number. -/
theorem token?_number {c : Char} (hc : c = '-' ∨ Number.isDigit c = true) (rest : List Char) :
    token? (c :: rest) = (scanNumber (c :: rest)).map fun p => (.number p.1.value, p.2) := by
  have hne : ∀ d : Char, ¬(d = '-' ∨ Number.isDigit d = true) → c ≠ d := by
    rintro d hd rfl
    exact hd hc
  have hmark : markToken? c = none := by
    unfold markToken?
    rw [if_neg (hne _ (by decide)), if_neg (hne _ (by decide)), if_neg (hne _ (by decide)),
      if_neg (hne _ (by decide)), if_neg (hne _ (by decide)), if_neg (hne _ (by decide))]
  have hword : wordToken? (c :: rest) = none := by
    have hstart : ∀ (d : Char) (word : List Char), ¬(d = '-' ∨ Number.isDigit d = true) →
        Text.stripStart? (d :: word) (c :: rest) = none := by
      intro d word hd
      rw [Text.stripStart?, if_neg (hne d hd).symm]
    refine List.findSome?_eq_none_iff.2 fun w hw => ?_
    simp only [wordTokens, List.mem_cons, List.not_mem_nil, or_false] at hw
    rw [Option.map_eq_none_iff]
    rcases hw with rfl | rfl | rfl
    · exact hstart 'n' ['u', 'l', 'l'] (by decide)
    · exact hstart 't' ['r', 'u', 'e'] (by decide)
    · exact hstart 'f' ['a', 'l', 's', 'e'] (by decide)
  rw [token?, hmark]
  dsimp only
  rw [if_neg (hne _ (by decide)), hword, Option.none_or]

/-- A token that is written in front of another text is read from both together, and this text is
left. -/
theorem token?_chars {t : Token} (ht : t.ReadsBack) {rest : List Char}
    (hrest : t.isClosed = true ∨ Ends rest) : token? (t.chars ++ rest) = some (t, rest) := by
  cases t with
  | openList => rfl
  | closeList => rfl
  | openRecord => rfl
  | closeRecord => rfl
  | comma => rfl
  | colon => rfl
  | null => rfl
  | truth b => cases b <;> rfl
  | number n =>
    obtain ⟨parts, hscan, hvalue⟩ := ht
    -- Only a number is not closed by itself: what follows has to end it.
    have hends := hrest.resolve_left Bool.false_ne_true
    have happend := scanNumber_append hscan hends
    have hchars : (Token.number n).chars = n.chars := rfl
    rw [hchars]
    cases hn : n.chars with
    | nil => rw [hn] at hscan; cases hscan
    | cons c more =>
      rw [hn] at hscan happend
      rw [List.cons_append] at happend ⊢
      rw [token?_number (head_of_scanNumber hscan), happend, Option.map_some, hvalue,
        List.nil_append]
  | text t =>
    obtain ⟨s, rfl⟩ := Option.isSome_iff_exists.1 ht
    have hchars : (Token.text (some s)).chars ++ rest
        = quote :: (s.toList.flatMap escape ++ quote :: rest) := by
      change quote :: s.toList.flatMap escape ++ [quote] ++ rest = _
      rw [List.cons_append, List.cons_append, List.append_assoc, List.singleton_append]
    have hmark : markToken? quote = none := rfl
    rw [hchars, token?, hmark]
    dsimp only
    rw [if_pos rfl, scanText_flatMap_escape, Option.map_some, Option.map_some, String.ofList_toList]

/-- A token does not begin with a blank. -/
theorem exists_chars_cons {t : Token} (ht : t.ReadsBack) :
    ∃ c more, t.chars = c :: more ∧ isSpace c = false := by
  cases t with
  | openList => exact ⟨_, _, rfl, rfl⟩
  | closeList => exact ⟨_, _, rfl, rfl⟩
  | openRecord => exact ⟨_, _, rfl, rfl⟩
  | closeRecord => exact ⟨_, _, rfl, rfl⟩
  | comma => exact ⟨_, _, rfl, rfl⟩
  | colon => exact ⟨_, _, rfl, rfl⟩
  | null => exact ⟨'n', ['u', 'l', 'l'], rfl, rfl⟩
  | truth b =>
    cases b with
    | false => exact ⟨'f', ['a', 'l', 's', 'e'], rfl, rfl⟩
    | true => exact ⟨'t', ['r', 'u', 'e'], rfl, rfl⟩
  | number n =>
    obtain ⟨parts, hscan, -⟩ := ht
    cases hn : n.chars with
    | nil => rw [hn] at hscan; cases hscan
    | cons c more =>
      rw [hn] at hscan
      refine ⟨c, more, hn, Bool.eq_false_iff.2 fun hspace => ?_⟩
      -- A number begins with a digit or a minus, and neither is a blank.
      have hc := head_of_scanNumber hscan
      simp only [isSpace, Bool.or_eq_true, beq_iff_eq] at hspace
      rcases hspace with ((rfl | rfl) | rfl) | rfl
      · exact absurd hc (by decide)
      · exact absurd hc (by decide)
      · exact absurd hc (by decide)
      · exact absurd hc (by decide)
  | text t => exact ⟨quote, _, rfl, rfl⟩

/-- The first token is the first of all, and the others are read behind it. -/
theorem lex_of_token? {c : Char} {s behind : List Char} {t : Token} (hc : isSpace c = false)
    (ht : token? (c :: s) = some (t, behind)) : lex (c :: s) = (lex behind).map (t :: ·) := by
  rw [lex, if_neg (Bool.eq_false_iff.1 hc)]
  split
  · rename_i hnone
    rw [ht] at hnone
    cases hnone
  · rename_i hsome
    rw [ht] at hsome
    cases hsome
    rfl

/-- A token that is written in front of another text is the first of the tokens of both together. -/
theorem lex_token {t : Token} (ht : t.ReadsBack) {rest : List Char}
    (hrest : t.isClosed = true ∨ Ends rest) :
    lex (t.chars ++ rest) = (lex rest).map (t :: ·) := by
  obtain ⟨c, more, hchars, hc⟩ := exists_chars_cons ht
  have htoken := token?_chars ht hrest
  rw [hchars] at htoken ⊢
  exact lex_of_token? hc htoken

/-- No token holds a line break. -/
theorem newline_not_mem_chars {t : Token} (ht : t.ReadsBack) : '\n' ∉ t.chars := by
  cases t with
  | openList => decide
  | closeList => decide
  | openRecord => decide
  | closeRecord => decide
  | comma => decide
  | colon => decide
  | null => decide
  | truth b => cases b <;> decide
  | number n =>
    intro hmem
    obtain ⟨parts, hscan, -⟩ := ht
    exact absurd (inNumber_of_scanNumber hscan hmem) (by decide)
  | text t =>
    intro hmem
    change '\n' ∈ quote :: (t.getD "").toList.flatMap escape ++ [quote] at hmem
    rw [List.mem_append, List.mem_cons, List.mem_singleton, List.mem_flatMap] at hmem
    rcases hmem with (h | ⟨c, -, h⟩) | h
    · exact absurd h (by decide)
    · exact newline_not_mem_escape c h
    · exact absurd h (by decide)

end LoadReplay.Json
