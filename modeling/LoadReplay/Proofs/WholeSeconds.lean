import LoadReplay.Config.Document
import LoadReplay.Proofs.DurationText

/-!
# Whole numbers of seconds in documents

A document can spell a whole number of seconds in three ways: as a number, as the text of that
number, and as that text with the unit of seconds behind it.  The first and the last are read
exactly.  The bare text is read as a binary64 number, which has 53 binary digits, so that it stands
for the nearest number of seconds with so many digits (`roundWhole`).

## Shape of the proof

A rounded quotient is nearest to the quotient (`isNearest_divNearest`).  The quotient by the power
of two that leaves 53 digits is between the least and the greatest significand, and what is nearest
to it is what the number rounds to (`exists_roundsTo`); a significand with one digit too many is
the least one at the next exponent.

Main statement: `Span.decode_wholeSeconds`.
-/

namespace LoadReplay

open Text

/-! ## Whole numbers with 53 binary digits -/

namespace Number

variable {n m k : Nat} {e : Int} {v : Rat}

/-- A quotient is rounded to the nearest whole number. -/
theorem isNearest_divNearest (num : Nat) {den : Nat} (h : 0 < den) :
    IsNearest (num / den) (divNearest num den) := by
  have hpos : (0 : Rat) < den := by exact_mod_cast h
  obtain ⟨hhigh, hlow⟩ := divNearest_near num den h
  have hlow : (2 : Rat) * (divNearest num den * den) ≤ 2 * num + den := by exact_mod_cast hlow
  have hhigh : (2 : Rat) * num ≤ 2 * (divNearest num den * den) + den := by exact_mod_cast hhigh
  refine ⟨?_, ?_, ?_⟩
  · rw [le_div_iff₀ hpos]
    linarith
  · rw [div_le_iff₀ hpos]
    linarith
  · intro htie
    rw [div_eq_iff hpos.ne', div_eq_iff hpos.ne'] at htie
    have htie : 2 * num + den = 2 * (divNearest num den * den) ∨
        2 * num = 2 * (divNearest num den * den) + den := by
      -- A tie is an equation between whole numbers, and there the parity can be decided.
      rcases htie with htie | htie
      · left
        have hdouble : (2 : Rat) * num + den = 2 * (divNearest num den * den) := by linarith
        exact_mod_cast hdouble
      · right
        have hdouble : (2 : Rat) * num = 2 * (divNearest num den * den) + den := by linarith
        exact_mod_cast hdouble
    have hdiv := Nat.div_add_mod' num den
    have hmod := Nat.mod_lt num h
    by_cases hround : den < 2 * (num % den) ∨ 2 * (num % den) = den ∧ num / den % 2 = 1
    · have hq : divNearest num den = num / den + 1 := if_pos hround
      rw [hq, Nat.add_mul, Nat.one_mul] at htie
      rw [hq]
      omega
    · have hq : divNearest num den = num / den := if_neg hround
      rw [hq] at htie ⊢
      omega

/-- What divides evenly is not rounded. -/
theorem divNearest_mul_self (c : Nat) {den : Nat} (h : 0 < den) : divNearest (c * den) den = c := by
  rw [divNearest, Nat.mul_div_cancel c h, Nat.mul_mod_left]
  exact if_neg (by omega)

/-- A quotient is rounded to no less than what it is not below. -/
theorem le_divNearest {num den lo : Nat} (h : 0 < den) (hle : lo * den ≤ num) :
    lo ≤ divNearest num den := by
  obtain ⟨hnear, -⟩ := divNearest_near num den h
  refine Nat.le_of_not_lt fun hlt => ?_
  have hmul : (divNearest num den + 1) * den ≤ lo * den := Nat.mul_le_mul_right _ hlt
  rw [Nat.add_mul, Nat.one_mul] at hmul
  omega

/-- And to no more than what it is not above. -/
theorem divNearest_le {num den hi : Nat} (h : 0 < den) (hle : num ≤ hi * den) :
    divNearest num den ≤ hi := by
  obtain ⟨-, hnear⟩ := divNearest_near num den h
  refine Nat.le_of_not_lt fun hlt => ?_
  have hmul : (hi + 1) * den ≤ divNearest num den * den := Nat.mul_le_mul_right _ hlt
  rw [Nat.add_mul, Nat.one_mul] at hmul
  omega

theorem two_zpow_add_one (k : Nat) : (2 : Rat) ^ ((k : Int) + 1) = 2 * 2 ^ k := by
  rw [two_zpow_of_eq (show (k : Int) + 1 = k + (1 : Nat) by omega), pow_one, zpow_natCast]

/-- What is nearest to a number with digits enough at some exponent is what it rounds to. -/
theorem IsNearest.roundsTo (h : IsNearest (v / 2 ^ e) m) (hv : (2 ^ 52 : Rat) * 2 ^ e ≤ v) :
    RoundsTo v m e := by
  have hpos := two_zpow_pos (e - 2)
  have hquarters := two_zpow_eq e
  have hlow : (m - 1 / 2) * 2 ^ e ≤ v := (le_div_iff₀ (two_zpow_pos e)).1 h.low
  have hhigh : v ≤ (m + 1 / 2) * 2 ^ e := (div_le_iff₀ (two_zpow_pos e)).1 h.high
  have hupper : v ≤ (4 * m + 2) * 2 ^ (e - 2) := by
    rw [hquarters] at hhigh
    linarith
  by_cases hpower : m = 2 ^ 52 ∧ e ≠ -1074
  · -- The gap below a power of two is narrow, but the number is not below it.
    have hlower : (4 * m - gapBelow m e) * 2 ^ (e - 2) ≤ v := by
      rw [gapBelow, if_pos hpower, hpower.1]
      rw [hquarters] at hv
      push_cast
      linarith
    refine ⟨hlower, hupper, fun hodd => ?_⟩
    rw [hpower.1] at hodd
    exact absurd hodd (by decide)
  · rw [hquarters] at hlow
    have hlower : (4 * m - 2) * 2 ^ (e - 2) ≤ v := by linarith
    have hgap : gapBelow m e = 2 := if_neg hpower
    refine ⟨by rw [hgap]; exact hlower, hupper, fun hodd => ?_⟩
    rw [hgap]
    have htie := mt h.tie (by omega)
    rw [not_or, div_eq_iff (two_zpow_pos e).ne', div_eq_iff (two_zpow_pos e).ne', hquarters] at htie
    refine ⟨lt_of_le_of_ne hlower fun heq => htie.1 ?_, lt_of_le_of_ne hupper fun heq => htie.2 ?_⟩
    · rw [← heq]
      push_cast
      ring
    · rw [heq]
      ring

/-- A number that would need one digit too many rounds to the least significand at the next
exponent. -/
theorem roundsTo_of_carry (hlow : (2 : Rat) * (2 ^ 53 * 2 ^ k) ≤ 2 * v + 2 ^ k)
    (hhigh : v < 2 ^ 53 * 2 ^ k) : RoundsTo v (2 ^ 52) (k + 1) := by
  have hquarter : (4 : Rat) * 2 ^ ((k : Int) + 1 - 2) = 2 * 2 ^ k := by
    rw [← two_zpow_eq, two_zpow_add_one]
  have hgap : gapBelow (2 ^ 52) ((k : Int) + 1) = 1 := if_pos ⟨rfl, by omega⟩
  refine ⟨?_, ?_, fun hodd => absurd hodd (by decide)⟩
  · rw [hgap]
    push_cast
    linarith
  · push_cast
    linarith

/-- The nearest whole number with 53 binary digits, a half going to the even one. -/
def roundWhole (n : Nat) : Nat := divNearest n (2 ^ (n.log2 - 52)) * 2 ^ (n.log2 - 52)

/-- The numbers that are not changed are those with no more than 53 digits in front of zeros. -/
theorem roundWhole_eq_self_iff : roundWhole n = n ↔ 2 ^ (n.log2 - 52) ∣ n := by
  have hpos : 0 < 2 ^ (n.log2 - 52) := Nat.two_pow_pos _
  constructor
  · exact fun h => Dvd.intro_left (divNearest n _) h
  · rintro ⟨c, hc⟩
    rw [roundWhole]
    generalize 2 ^ (n.log2 - 52) = d at hc hpos ⊢
    rw [hc, Nat.mul_comm d c, divNearest_mul_self c hpos]

/-- What a number rounds to. -/
theorem exists_roundsTo (hn : 0 < n) (hlt : n < 2 ^ 64) :
    ∃ m e, IsCanonical m e ∧ RoundsTo n m e ∧ (m * 2 ^ e : Rat) = roundWhole n := by
  rcases Nat.lt_or_ge n (2 ^ 53) with hshort | hlong
  · -- A number with no more than 53 digits is its own value.
    obtain ⟨m, e, hc, -, hvalue, -⟩ := ofNat_eq hn hshort
    have hlog : n.log2 - 52 = 0 := by
      have hless := (Nat.log2_lt hn.ne').2 hshort
      omega
    have hself : roundWhole n = n := by
      rw [roundWhole_eq_self_iff, hlog]
      exact one_dvd n
    have hrounds := roundsTo_self m e
    rw [hvalue] at hrounds
    exact ⟨m, e, hc, hrounds, by rw [hvalue, hself]⟩
  have hlog : 53 ≤ n.log2 := (Nat.le_log2 hn.ne').2 hlong
  have hlogLt : n.log2 < 64 := (Nat.log2_lt hn.ne').2 hlt
  obtain ⟨k, hk⟩ : ∃ k, n.log2 = 52 + k := ⟨n.log2 - 52, by omega⟩
  have hround : roundWhole n = divNearest n (2 ^ k) * 2 ^ k := by
    rw [roundWhole, hk, Nat.add_sub_cancel_left]
  have hlow : 2 ^ 52 * 2 ^ k ≤ n := by
    rw [← pow_add, ← hk]
    exact Nat.log2_self_le hn.ne'
  have hhigh : n < 2 ^ 53 * 2 ^ k := by
    rw [← pow_add, show 53 + k = n.log2 + 1 by omega]
    exact Nat.lt_log2_self
  have hpos := Nat.two_pow_pos k
  have hnear := isNearest_divNearest n hpos
  have hleast := le_divNearest hpos hlow
  have hbelow := (divNearest_near n (2 ^ k) hpos).2
  rcases Nat.lt_or_eq_of_le (divNearest_le hpos hhigh.le) with hfits | hcarry
  · rw [Nat.cast_pow, ← zpow_natCast] at hnear
    have hdigits : (2 ^ 52 : Rat) * 2 ^ (k : Int) ≤ n := by
      rw [zpow_natCast]
      exact_mod_cast hlow
    refine ⟨_, k, ⟨by omega, hfits, by omega, by omega, Or.inr hleast⟩, hnear.roundsTo hdigits, ?_⟩
    rw [hround, zpow_natCast]
    push_cast
    rfl
  · rw [hcarry] at hround hbelow
    refine ⟨2 ^ 52, k + 1, ⟨by norm_num, by norm_num, by omega, by omega, Or.inr le_rfl⟩,
      roundsTo_of_carry (by exact_mod_cast hbelow) (by exact_mod_cast hhigh), ?_⟩
    rw [hround, two_zpow_add_one]
    push_cast
    ring

/-- A number is written in digits. -/
theorem allDigits_toDigits (n : Nat) : AllDigits (Nat.toDigits 10 n) :=
  fun _ hc => isDigit_of_mem_toDigits hc

/-- Its digits have its value. -/
theorem digitsValue_toDigits (n : Nat) : digitsValue (Nat.toDigits 10 n) = n := by
  rw [digitsValue, readOn_toDigits]
  rfl

/-- It begins with a digit. -/
theorem exists_head_toDigits (n : Nat) :
    ∃ c ∈ (Nat.toDigits 10 n).head?, isDigit c = true := by
  obtain ⟨c, rest, hdigits⟩ := List.exists_cons_of_ne_nil (Nat.toDigits_ne_nil (b := 10) (n := n))
  exact ⟨c, by rw [hdigits]; rfl, allDigits_toDigits n c (hdigits ▸ List.mem_cons_self)⟩

/-- Without a unit it is read as the nearest number with a binary point. -/
theorem readNumber_toDigits (n : Nat) :
    readNumber (Nat.toDigits 10 n) = some (nearest n 0) := by
  have hpointed : IsPointed (Nat.toDigits 10 n) (Nat.toDigits 10 n) [] n := by
    refine ⟨(pointed_nil _).symm, Nat.toDigits_ne_nil, allDigits_toDigits n, allDigits_zeros 0, ?_⟩
    rw [List.append_nil, digitsValue_toDigits]
    simp
  rw [readNumber_of_digit (exists_head_toDigits n), hpointed.readMagnitude_eq, List.append_nil,
    digitsValue_toDigits]
  rfl

end Number

/-! ## The three spellings -/

namespace Span

open Number Compound Document

variable {n : Nat}

/-- A number of seconds that is whole is as long as it says. -/
theorem ofSeconds?_whole {x : Float} {m r : Nat} {e : Int} (hx : parts x = .finite false m e)
    (hr : (m * 2 ^ e : Rat) = r) : ofSeconds? x = ofParts? r 0 := by
  have hfraction : (fraction m e).1 = r * (fraction m e).2 := by
    have hvalue := fraction_eq m e
    rw [hr] at hvalue
    exact_mod_cast hvalue
  rw [ofSeconds?, hx]
  dsimp only
  rw [if_neg (by simp), hfraction, Nat.mul_right_comm, divNearest_mul_self _ (fraction_pos m e),
    ofParts?, Nat.add_zero]

/-- As seconds, that is the number rounded to 53 binary digits. -/
theorem ofSeconds?_nearest (hlt : n < 2 ^ 64) :
    ofSeconds? (nearest n 0) = ofParts? (roundWhole n) 0 := by
  rcases Nat.eq_zero_or_pos n with rfl | hn
  · have hzero : roundWhole 0 = 0 := by decide
    have hparts : parts (nearest 0 0) = .finite false 0 (-1074) := by decide
    refine ofSeconds?_whole hparts ?_
    rw [hzero, Nat.cast_zero, zero_mul]
  · obtain ⟨m, e, hc, hrounds, hvalue⟩ := exists_roundsTo hn hlt
    refine ofSeconds?_whole (parts_nearest hn hc ?_) hvalue
    rwa [zpow_zero, mul_one]

/-- The text of a number is its digits. -/
theorem toList_toString (n : Nat) : (toString n).toList = Nat.toDigits 10 n := String.toList_ofList

/-- The text of a whole number is read as the nearest one with 53 binary digits. -/
theorem read_toString (hlt : n < 2 ^ 64) :
    read (toString n) = (ofParts? (roundWhole n) 0).elim
      (.error (.error (.invalid (toString n)))) Except.ok := by
  have hdigit {c : Char} (hc : c ∈ Nat.toDigits 10 n) : isBlank c = false :=
    isBlank_of_isDigit (allDigits_toDigits n c hc)
  have htrim : IsTrimmed (Nat.toDigits 10 n) :=
    ⟨fun _ hc => hdigit (List.mem_of_mem_head? hc),
      fun _ hc => hdigit (List.mem_of_mem_getLast? hc)⟩
  rw [read, toList_toString, htrim.trim_eq, readTrimmed_of_number (readNumber_toDigits n),
    ofSeconds?_nearest hlt, ← toList_toString, String.ofList_toList]

/-- Digits without blanks among them are counted as they are read. -/
theorem readOn_eq_foldl {s : List Char} (hs : AllDigits s) (acc : Nat) :
    readOn 10 acc s = some (s.foldl readFigure acc) := by
  induction s generalizing acc with
  | nil => rfl
  | cons c s ih =>
    obtain ⟨hc, hs⟩ := List.forall_mem_cons.1 hs
    obtain ⟨d, hd⟩ := exists_digitValue? hc
    rw [readOn, hd, Option.bind_some, ih hs, List.foldl_cons, readFigure_of_digit hd]

/-- With a unit, the digits are counted as they stand. -/
theorem numeral_toDigits (n : Nat) : numeral (Nat.toDigits 10 n) = n :=
  Option.some.inj ((readOn_eq_foldl (allDigits_toDigits n) 0).symm.trans (readOn_toDigits n))

/-- A whole number of seconds as an amount. -/
def secondsAmount (n : Nat) : Amount where
  gap := []
  digits := Nat.toDigits 10 n
  gap_blank := List.forall_mem_nil _
  isNumeral := fun c hc => Or.inl (allDigits_toDigits n c hc)
  front := exists_head_toDigits n
  decimals := none
  unit := ['s']
  decimals_isNumeral := fun _ hw => by cases hw
  unit_letters := fun c hc => by
    rw [List.mem_singleton.1 hc]
    decide
  unit_ne_nil := List.cons_ne_nil _ _

/-- So many seconds are added exactly. -/
theorem secondsAmount_addTo (hlt : n < 2 ^ 64) :
    (secondsAmount n).addTo zero = Fault.ofOption (ofParts? n 0) := by
  have hcount : (secondsAmount n).count = n := numeral_toDigits n
  have hfits : (secondsAmount n).Fits := ⟨by rwa [hcount], fun _ hd => by cases hd⟩
  have hunit : Unit.ofText? (String.ofList ['s']) = some .second := by decide
  have hseconds : zero.seconds = 0 := by decide
  have hnanos : zero.subNanos = 0 := by decide
  rw [Amount.addTo, if_pos hfits, hcount]
  show addUnits zero n none (String.ofList ['s']) = _
  rw [addUnits, hunit]
  show (word (n * 1) >>= fun scaled => addMeasure zero true scaled >>= pure) = _
  rw [Nat.mul_one, word_of_lt hlt]
  show (addMeasure zero true n >>= pure) = _
  rw [bind_pure, addMeasure_seconds, hseconds, hnanos, Nat.zero_add, if_pos hlt]

/-- The text of a whole number with the unit of seconds is read exactly. -/
theorem read_toString_seconds (hlt : n < 2 ^ 64) {a : Span} (ha : ofParts? n 0 = some a) :
    read (toString n ++ "s") = .ok a := by
  -- The text is that of one amount, so what is known of texts of amounts applies.
  have htext : (toString n ++ "s").toList = Compound.text [secondsAmount n] := by
    rw [String.toList_append, toList_toString]
    show _ = [] ++ Nat.toDigits 10 n ++ ([] ++ ['s']) ++ []
    rw [List.append_nil]
    rfl
  have htrim : IsTrimmed (Compound.text [secondsAmount n]) := by
    constructor
    · intro c hc
      obtain ⟨b, hb, hdigit⟩ := exists_head_toDigits n
      rw [← htext, String.toList_append, toList_toString, List.head?_append, hb] at hc
      cases hc
      exact isBlank_of_isDigit hdigit
    · intro c hc
      rw [← htext, String.toList_append, List.getLast?_append] at hc
      cases hc
      decide
  have hnumber : readNumber (Compound.text [secondsAmount n]) = none := by
    rw [text_cons]
    have hunit : (Unit.ofText? (String.ofList ['s'])).isSome = true := by decide
    exact readNumber_amount (secondsAmount n) rfl hunit _
  have hsum : Compound.read (Compound.text [secondsAmount n]) = .ok a := by
    have hread := read_text (List.cons_ne_nil (secondsAmount n) []) (List.forall_mem_nil _)
    rw [List.append_nil] at hread
    rw [hread, addAll, List.foldlM_cons, secondsAmount_addTo hlt, ha]
    rfl
  have hne : Compound.text [secondsAmount n] ≠ [] := by
    rw [text_cons]
    exact List.append_ne_nil_of_left_ne_nil (Amount.chars_ne_nil _) _
  rw [read, htext, htrim.trim_eq, readTrimmed_of_not_number hne hnumber, hsum, Except.mapError]

/-- The span of a whole number of seconds. -/
def ofSeconds (n : UInt64) : Span := ⟨n.toNat * 1_000_000_000, by
  have hmax : maxNanos + 1 = 2 ^ 64 * 1_000_000_000 := rfl
  have hlt := n.toNat_lt
  omega⟩

/-- Every number of seconds that is a word is a length. -/
theorem ofParts?_eq_ofSeconds (n : UInt64) : ofParts? n.toNat 0 = some (ofSeconds n) := by
  rw [ofParts?, Nat.add_zero]
  exact dif_pos (ofSeconds n).le_max

/-- **Whole numbers of seconds in a document.**  As a number, and as text with the unit, they are
read exactly.  The bare text is read as the nearest number with 53 binary digits, and refused if
that is out of range; so the three agree just for the numbers that have no more digits than that in
front of their zeros. -/
theorem decode_wholeSeconds (n : UInt64) (count bare named : Tree)
    (hcount : count.plain? = some (.count n.toNat))
    (hbare : bare.plain? = some (.text (toString n.toNat)))
    (hnamed : named.plain? = some (.text (toString n.toNat ++ "s"))) :
    decode count = .ok (ofSeconds n) ∧ decode named = .ok (ofSeconds n) ∧
    decode bare = need (ofParts? (roundWhole n.toNat) 0) ∧
    (decode bare = .ok (ofSeconds n) ↔ 2 ^ (n.toNat.log2 - 52) ∣ n.toNat) := by
  have hbareEq : decode bare = need (ofParts? (roundWhole n.toNat) 0) := by
    rw [decode, hbare]
    dsimp only
    rw [read_toString n.toNat_lt]
    cases ofParts? (roundWhole n.toNat) 0 <;> rfl
  refine ⟨?_, ?_, hbareEq, ?_⟩
  · rw [decode, hcount]
    dsimp only
    rw [ofParts?_eq_ofSeconds]
    rfl
  · rw [decode, hnamed]
    dsimp only
    rw [read_toString_seconds n.toNat_lt (ofParts?_eq_ofSeconds n)]
  · rw [hbareEq, ← roundWhole_eq_self_iff]
    -- The bare number is read through binary64, which keeps it exactly if no bit is rounded away.
    constructor
    · intro h
      cases hparts : ofParts? (roundWhole n.toNat) 0 with
      | none =>
        rw [hparts] at h
        cases h
      | some a =>
        rw [hparts] at h
        have hnanos := ofNanos?_eq_some hparts
        rw [Except.ok.inj h] at hnanos
        have hsame : n.toNat * 1_000_000_000 = roundWhole n.toNat * 1_000_000_000 + 0 := hnanos
        omega
    · intro h
      rw [h, ofParts?_eq_ofSeconds]
      rfl

/-- The least number for which they differ. -/
theorem decode_wholeSeconds_two_pow_53_succ :
    decode (.scalar (.ofPlain (.count 9007199254740993))) =
      .ok (ofSeconds 9007199254740993) ∧
    decode (.scalar (.ofPlain (.text "9007199254740993s"))) =
      .ok (ofSeconds 9007199254740993) ∧
    decode (.scalar (.ofPlain (.text "9007199254740993"))) =
      .ok (ofSeconds 9007199254740992) := by
  have htext : toString (9007199254740993 : UInt64).toNat = "9007199254740993" := by decide
  have hround : roundWhole (9007199254740993 : UInt64).toNat =
      (9007199254740992 : UInt64).toNat := by decide
  obtain ⟨hcount, hnamed, hbare, -⟩ := decode_wholeSeconds 9007199254740993
    (.scalar (.ofPlain (.count 9007199254740993)))
    (.scalar (.ofPlain (.text "9007199254740993")))
    (.scalar (.ofPlain (.text "9007199254740993s"))) rfl (by rw [htext]; rfl) (by rw [htext]; rfl)
  refine ⟨hcount, hnamed, hbare.trans ?_⟩
  rw [hround, ofParts?_eq_ofSeconds]
  rfl

end Span

end LoadReplay
