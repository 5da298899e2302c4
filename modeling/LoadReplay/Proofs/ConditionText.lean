import LoadReplay.Proofs.ConditionGrammar
import LoadReplay.Proofs.PlainText

/-!
# Conditions are read back from their texts

A condition is written as its statistic, its comparator and its bound with one blank between them.
Plain texts of numbers hold digits, points, minus signs and letters only, so they have no blanks to
take off (`isTrimmed_plainText`), and so the text of a condition spells the condition
(`spells_text`) as `read_iff_spells` asks for.  That the cut is made at the comparator that was
written, and not at a mark of the statistic or of the bound, is what that theorem says of every
text that spells one.

Main statement: `reads_back`.
-/

namespace LoadReplay

open Text

namespace Number

/-- The characters of plain numbers are no blanks. -/
theorem isBlank_of_isPlainChar {c : Char} (h : isPlainChar c = true) : isBlank c = false := by
  have hmarks : ['.', '-', 'i', 'n', 'f', 'N', 'a'].all (fun c => !isBlank c) = true := by decide
  rcases Bool.or_eq_true_iff.1 h with hdigit | hmark
  · exact isBlank_of_isDigit hdigit
  · have hc := List.all_eq_true.1 hmarks c (List.contains_iff_mem.1 hmark)
    rwa [Bool.not_eq_true'] at hc

/-- Plain texts have no blanks to take off. -/
theorem isTrimmed_plainText (x : Float) : IsTrimmed (plainText x).toList := by
  constructor
  · exact fun c hc => isBlank_of_isPlainChar (plainText_chars x c (List.mem_of_mem_head? hc))
  · exact fun c hc => isBlank_of_isPlainChar (plainText_chars x c (List.mem_of_mem_getLast? hc))

/-- A plain text is read to its number, also with blanks around it. -/
theorem readNumber_trim_plainText (x : Float) :
    readNumber (trim (plainText x).toList) = some x := by
  rw [(isTrimmed_plainText x).trim_eq, readNumber_plainText]

end Number

namespace Statistic

variable {s : List Char} {st : Statistic}

/-- No spelling of a statistic has blanks at its ends. -/
theorem Spelled.isTrimmed (h : Spelled s st) : IsTrimmed s := by
  cases h with
  | percentile =>
    constructor
    · intro c hc
      cases hc
      decide
    · intro c hc
      rw [List.getLast?_append] at hc
      cases hc
      decide
  | _ => decide

/-- Whether a percentile is between the least one and the greatest one. -/
def InRange : Statistic → Prop
  | .percentile p => isPercentile p = true
  | _ => True

/-- Only percentiles in range are spelled. -/
theorem Spelled.inRange (h : Spelled s st) : st.InRange := by
  cases h with
  | percentile _ hleast hgreatest => exact isPercentile_iff.2 ⟨hleast, hgreatest⟩
  | _ => trivial

/-- The text of a statistic in range is one of its spellings. -/
theorem InRange.spelled_text (h : st.InRange) : Spelled st.text.toList st := by
  cases st with
  | percentile p =>
    obtain ⟨hleast, hgreatest⟩ := isPercentile_iff.1 h
    rw [text, String.toList_append, String.toList_append]
    exact .percentile (Number.readNumber_trim_plainText p) hleast hgreatest
  | average => exact .average
  | median => exact .median
  | least => exact .least
  | greatest => exact .greatest
  | count => exact .count
  | failureRate => exact .failureRate

end Statistic

namespace Condition

variable {c : Condition}

/-- The text of a condition spells it. -/
theorem spells_text (h : c.statistic.InRange) :
    Spells c.text.toList (c.statistic.text.toList ++ [' '])
      (' ' :: (Number.plainText c.bound).toList) c := by
  have hspelled := h.spelled_text
  refine ⟨?_, ?_, ?_⟩
  · simp [text]
  · rwa [trim_concat (by decide), hspelled.isTrimmed.trim_eq]
  · rw [trim_cons (by decide), Number.readNumber_trim_plainText]

/-- No percentile is a NaN, so statistics compare equal to themselves. -/
theorem sameStatistic_self {st : Statistic} (h : st.InRange) : sameStatistic st st = true := by
  cases st with
  | percentile p =>
    refine Float.beq_self_iff.2 ?_
    rintro rfl
    have hnan : Statistic.isPercentile Float.nan = false := by decide
    rw [Statistic.InRange, hnan] at h
    cases h
  | _ => rfl

/-- **A condition is read back from its text.**  The text of a condition that was read is cut at the
comparator that was written, and is read to the same statistic, comparator and bound.  Its
percentile is equal to itself, and so is its bound, unless it is a NaN, which is read to a NaN. -/
theorem reads_back {s : String} {c : Condition} (h : read s = .ok c) :
    Comparator.split c.text.toList = some ⟨c.statistic.text.toList ++ [' '], c.comparator,
        ' ' :: (Number.plainText c.bound).toList⟩ ∧
      read c.text = .ok c ∧ sameStatistic c.statistic c.statistic = true ∧
      ((c.bound == c.bound) = true ∨ c.bound.isNaN = true) := by
  obtain ⟨before, behind, hspells⟩ := ((read_iff_spells s).1 c).1 h
  have hrange := hspells.statistic.inRange
  have htext := spells_text hrange
  refine ⟨htext.split_eq, ((read_iff_spells _).1 c).2 ⟨_, _, htext⟩, sameStatistic_self hrange, ?_⟩
  by_cases hnan : c.bound = Float.nan
  · right
    rw [hnan]
    decide
  · exact Or.inl (Float.beq_self_iff.2 hnan)

/-- A percentile and a bound that were written in another way. -/
theorem reads_back_percentile :
    ∃ c, read " p( 95.0 )<=1.5e4" = .ok c ∧ c.text = "p(95) <= 15000" ∧ read c.text = .ok c := by
  have htext : (read " p( 95.0 )<=1.5e4").toOption.map text = some "p(95) <= 15000" := by
    decide +kernel
  obtain ⟨c, hc, hwritten⟩ := Option.map_eq_some_iff.1 htext
  have hread := eq_ok_of_toOption hc
  exact ⟨c, hread, hwritten, (reads_back hread).2.1⟩

end Condition

end LoadReplay
