import LoadReplay.Number.Whole
import LoadReplay.Text.Blank
import LoadReplay.Text.Split
import Mathlib.Data.List.DropRight

/-!
# Trimmed and cut text

A text is trimmed if it neither begins nor ends with a blank (`IsTrimmed`).  Trimming makes a text
trimmed, changes nothing if it is trimmed already, and never takes away a character that is not
blank.

Cutting at a separator gives pieces without the separator, and it undoes gluing such pieces together
(`splitAll_glue`).  Taking off a fixed end undoes putting it there.  A pattern is found if it is in
the text, and at no later place than any other at which it stands (`exists_breakAt`).
-/

namespace LoadReplay

open Text

/-! ## Blanks -/

/-- No visible character of ASCII is blank. -/
theorem Text.isBlank_of_visible {c : Char} (hlow : 0x20 < c.toNat) (hhigh : c.toNat < 0x85) :
    isBlank c = false := by
  simp only [isBlank, blankRanges, List.any_eq_false, List.mem_cons, List.not_mem_nil, or_false,
    Bool.and_eq_true, decide_eq_true_eq]
  rintro r (rfl | rfl | rfl | rfl | rfl | rfl | rfl | rfl | rfl | rfl) <;> omega

/-- Digits are no blanks. -/
theorem Number.isBlank_of_isDigit {c : Char} (h : isDigit c = true) : isBlank c = false := by
  obtain ⟨hlow, hhigh⟩ := Bool.and_eq_true_iff.1 h
  have hlow' : 48 ≤ c.toNat := of_decide_eq_true hlow
  have hhigh' : c.toNat ≤ 57 := of_decide_eq_true hhigh
  exact isBlank_of_visible (by omega) (by omega)

namespace Text

/-! ## Trimming -/

/-- Whether a text neither begins nor ends with a blank. -/
structure IsTrimmed (s : List Char) : Prop where
  front : ∀ c ∈ s.head?, isBlank c = false
  back : ∀ c ∈ s.getLast?, isBlank c = false

variable {s : List Char} {c : Char}

/-- A text is trimmed if neither its first nor its last character is a blank. -/
theorem isTrimmed_iff : IsTrimmed s ↔
    s.head?.all (fun c => !isBlank c) = true ∧ s.getLast?.all (fun c => !isBlank c) = true := by
  simp only [Option.all_eq_true, Bool.not_eq_true']
  exact ⟨fun h => ⟨h.front, h.back⟩, fun h => ⟨h.1, h.2⟩⟩

-- Through `Option.all`, since a quantifier would be decided by going through all characters.
instance : DecidablePred IsTrimmed := fun _ => decidable_of_iff' _ isTrimmed_iff

/-- Blanks are taken off the front and then off the back. -/
theorem trim_eq (s : List Char) : trim s = (s.dropWhile isBlank).rdropWhile isBlank := rfl

/-- Taking blanks off the back leaves the front. -/
theorem trim_isPrefix_trimStart (s : List Char) : trim s <+: trimStart s := by
  rw [trim_eq]
  exact List.rdropWhile_prefix _ _

/-- Trimming adds nothing. -/
theorem mem_of_mem_trim (hc : c ∈ trim s) : c ∈ s := by
  have hstart : c ∈ trimStart s := (trim_isPrefix_trimStart s).mem hc
  exact (List.dropWhile_suffix _).mem hstart

/-- What is no blank is not taken off. -/
theorem mem_dropWhile {p : Char → Bool} (hc : c ∈ s) (hp : p c = false) : c ∈ s.dropWhile p := by
  rw [← List.takeWhile_append_dropWhile (p := p) (l := s), List.mem_append] at hc
  rcases hc with hc | hc
  · rw [List.mem_takeWhile_imp hc] at hp
    cases hp
  · exact hc

/-- Trimming leaves every character that is not blank. -/
theorem mem_trim (hc : c ∈ s) (hblank : isBlank c = false) : c ∈ trim s := by
  have hstart : c ∈ (trimStart s).reverse := List.mem_reverse.2 (mem_dropWhile hc hblank)
  exact List.mem_reverse.2 (mem_dropWhile hstart hblank)

/-- A text is trimmed once it was. -/
theorem isTrimmed_trim (s : List Char) : IsTrimmed (trim s) := by
  constructor
  · intro c hc
    -- A text that begins like the text without its leading blanks begins with no blank.
    have hstart : (trimStart s).head? = some c := by
      obtain ⟨rest, hrest⟩ := trim_isPrefix_trimStart s
      rw [← hrest, List.head?_append, hc]
      rfl
    have hnot := List.head?_dropWhile_not isBlank s
    have hdrop : (s.dropWhile isBlank).head? = some c := hstart
    rw [hdrop] at hnot
    simpa using hnot
  · intro c hc
    have hne : trim s ≠ [] := by
      intro hnil
      rw [hnil] at hc
      cases hc
    have hlast := List.rdropWhile_last_not isBlank (trimStart s) hne
    rw [List.getLast?_eq_some_getLast hne] at hc
    obtain rfl := Option.some.inj hc
    exact Bool.eq_false_iff.2 hlast

/-- Trimming takes nothing off a trimmed text. -/
theorem IsTrimmed.trim_eq (h : IsTrimmed s) : trim s = s := by
  have hstart : s.dropWhile isBlank = s := by
    rw [List.dropWhile_eq_self_iff]
    intro hlength
    have hhead : s.head? = some s[0] := by
      rw [List.head?_eq_getElem?, List.getElem?_eq_getElem hlength]
    have hfront := h.front s[0] hhead
    rw [hfront]
    decide
  rw [Text.trim_eq, hstart, List.rdropWhile_eq_self_iff]
  intro hne
  rw [h.back _ (List.getLast?_eq_some_getLast hne)]
  decide

/-- A blank in front of a text does not count. -/
theorem trim_cons (h : isBlank c = true) (s : List Char) : trim (c :: s) = trim s := by
  rw [Text.trim_eq, Text.trim_eq, List.dropWhile_cons_of_pos h]

/-- A blank behind a text does not count. -/
theorem trim_concat (h : isBlank c = true) (s : List Char) : trim (s ++ [c]) = trim s := by
  rw [Text.trim_eq, Text.trim_eq, List.dropWhile_append]
  split
  case isTrue hempty =>
    rw [List.isEmpty_iff.1 hempty, List.dropWhile_cons_of_pos h]
    rfl
  case isFalse => exact List.rdropWhile_concat_pos _ _ _ h

/-! ## Cutting -/

section Cutting

variable {sep : Char}

/-- A text is cut at its first separator. -/
theorem splitOnce_append (h : sep ∉ s) (rest : List Char) :
    splitOnce sep (s ++ sep :: rest) = some (s, rest) := by
  induction s with
  | nil => rw [List.nil_append, splitOnce, if_pos rfl]
  | cons c s ih =>
    rw [List.mem_cons, not_or] at h
    obtain ⟨hc, hs⟩ := h
    rw [List.cons_append, splitOnce, if_neg (Ne.symm hc), ih hs]
    rfl

/-- Without a separator it is not cut. -/
theorem splitOnce_eq_none (h : splitOnce sep s = none) : sep ∉ s := by
  intro hmem
  obtain ⟨before, rest, rfl, hbefore⟩ := List.eq_append_cons_of_mem hmem
  rw [splitOnce_append hbefore] at h
  cases h

/-- The first part reaches to the first separator. -/
theorem splitAll_append (h : sep ∉ s) (rest : List Char) :
    splitAll sep (s ++ sep :: rest) = s :: splitAll sep rest := by
  induction s with
  | nil => rw [List.nil_append, splitAll, if_pos rfl]
  | cons c s ih =>
    rw [List.mem_cons, not_or] at h
    obtain ⟨hc, hs⟩ := h
    rw [List.cons_append, splitAll, if_neg (Ne.symm hc), ih hs]

/-- No piece holds the separator. -/
theorem not_mem_of_mem_splitAll {piece : List Char} (h : piece ∈ splitAll sep s) : sep ∉ piece := by
  induction s generalizing piece with
  | nil =>
    obtain rfl := List.mem_singleton.1 h
    exact List.not_mem_nil
  | cons c rest ih =>
    unfold splitAll at h
    by_cases hc : c = sep
    · rw [if_pos hc] at h
      rcases List.mem_cons.1 h with rfl | h
      · exact List.not_mem_nil
      · exact ih h
    · rw [if_neg hc] at h
      cases hrest : splitAll sep rest with
      | nil =>
        rw [hrest] at h
        obtain rfl := List.mem_singleton.1 h
        simpa using Ne.symm hc
      | cons first others =>
        rw [hrest] at h ih
        rcases List.mem_cons.1 h with rfl | h
        · have hfirst := ih List.mem_cons_self
          simpa [Ne.symm hc] using hfirst
        · exact ih (List.mem_cons_of_mem _ h)

/-- Without a separator there is one part. -/
theorem splitAll_eq_singleton (h : sep ∉ s) : splitAll sep s = [s] := by
  induction s with
  | nil => rfl
  | cons c rest ih =>
    rw [List.mem_cons, not_or] at h
    obtain ⟨hc, hrest⟩ := h
    rw [splitAll, if_neg (Ne.symm hc), ih hrest]

/-- Parts are glued with a separator between any two. -/
theorem toList_glue_cons (a b : String) (rest : List String) :
    (glue (String.singleton sep) (a :: b :: rest)).toList =
      a.toList ++ sep :: (glue (String.singleton sep) (b :: rest)).toList := by
  change (a ++ String.singleton sep ++ glue (String.singleton sep) (b :: rest)).toList = _
  rw [String.toList_append, String.toList_append, String.toList_singleton, List.append_assoc]
  rfl

/-- Gluing adds nothing but separators. -/
theorem mem_glue {mark : String} {l : List String} (h : c ∈ (glue mark l).toList) :
    c ∈ mark.toList ∨ ∃ a ∈ l, c ∈ a.toList := by
  induction l with
  | nil => cases h
  | cons a rest ih =>
    cases rest with
    | nil => exact .inr ⟨a, List.mem_cons_self, h⟩
    | cons b rest =>
      change c ∈ (a ++ mark ++ glue mark (b :: rest)).toList at h
      rw [String.toList_append, String.toList_append, List.mem_append, List.mem_append] at h
      rcases h with (h | h) | h
      · exact .inr ⟨a, List.mem_cons_self, h⟩
      · exact .inl h
      · rcases ih h with h | ⟨d, hd, h⟩
        · exact .inl h
        · exact .inr ⟨d, List.mem_cons_of_mem _ hd, h⟩

/-- Cutting undoes gluing. -/
theorem splitAll_glue {l : List String} (hne : l ≠ []) (h : ∀ a ∈ l, sep ∉ a.toList) :
    splitAll sep (glue (String.singleton sep) l).toList = l.map String.toList := by
  induction l with
  | nil => exact absurd rfl hne
  | cons a rest ih =>
    obtain ⟨ha, hrest⟩ := List.forall_mem_cons.1 h
    cases rest with
    | nil => exact splitAll_eq_singleton ha
    | cons b rest =>
      rw [toList_glue_cons, splitAll_append ha, ih (List.cons_ne_nil b rest) hrest]
      rfl

end Cutting

/-! ## Taking off the ends -/

/-- What stands in front is taken off. -/
theorem stripStart?_append (start rest : List Char) :
    stripStart? start (start ++ rest) = some rest := by
  induction start with
  | nil => rfl
  | cons c start ih => rw [List.cons_append, stripStart?, if_pos rfl, ih]

/-- What is taken off the end stood there. -/
theorem stripEnd?_eq_some {ending front : List Char} :
    stripEnd? ending s = some front ↔ s = front ++ ending := by
  rw [stripEnd?, Option.map_eq_some_iff]
  constructor
  · rintro ⟨back, hback, rfl⟩
    rw [← List.reverse_inj, List.reverse_append, List.reverse_reverse]
    exact stripStart?_eq_some hback
  · rintro rfl
    refine ⟨front.reverse, ?_, List.reverse_reverse front⟩
    rw [List.reverse_append, stripStart?_append]

/-! ## Looking for a pattern -/

/-- Where a pattern stands, a break finds it, or an earlier one. -/
theorem exists_breakAt (pat before behind : List Char) :
    ∃ first rest, breakAt pat (before ++ pat ++ behind) = some (first, rest) ∧
      first.length ≤ before.length := by
  induction before with
  | nil =>
    refine ⟨[], behind, ?_, Nat.le_refl 0⟩
    rw [List.nil_append]
    have hfront := stripStart?_append pat behind
    cases hs : pat ++ behind with
    | nil =>
      obtain ⟨rfl, rfl⟩ := List.append_eq_nil_iff.1 hs
      rfl
    | cons c rest =>
      rw [hs] at hfront
      rw [breakAt, hfront]
  | cons c before ih =>
    obtain ⟨first, rest, hbreak, hlength⟩ := ih
    rw [List.cons_append, List.cons_append, breakAt]
    cases hfront : stripStart? pat (c :: (before ++ pat ++ behind)) with
    | some after => exact ⟨[], after, rfl, Nat.zero_le _⟩
    | none =>
      rw [hbreak]
      exact ⟨c :: first, rest, rfl, Nat.succ_le_succ hlength⟩

end Text

end LoadReplay
