import LoadReplay.Proofs.Results
import LoadReplay.Proofs.Trimming
import LoadReplay.Threshold.Condition

/-!
# The grammar of conditions

A condition text is a statistic, one of the six comparators and a bound, with any blanks around the
statistic and the bound (`Condition.Spells`).  The reader looks for each of the comparators on its
own and cuts the text at the foremost of them, at the longer one where two begin at the same place
(`Comparator.exists_split`).  It needs no more than that, since none of the characters that
comparators are made of can be in a statistic or in a bound (`Markless`): a text that is cut
anywhere else is no condition.

Main statement: `Condition.read_iff_spells`.
-/

namespace LoadReplay

open Text

/-! ## Texts without comparators -/

/-- The characters that comparators are made of. -/
def Comparator.marks : List Char := ['<', '>', '=', '!']

/-- What holds of the marks is decided for each of them, and not for all characters. -/
theorem Comparator.forall_marks {p : Char → Prop} :
    (∀ c ∈ marks, p c) ↔ p '<' ∧ p '>' ∧ p '=' ∧ p '!' := by
  simp [marks]

/-- Whether a text holds none of the characters that comparators are made of. -/
def Markless (s : List Char) : Prop := ∀ c ∈ Comparator.marks, c ∉ s

instance : DecidablePred Markless := fun _ => decidable_of_iff' _ Comparator.forall_marks

namespace Markless

open Comparator

variable {s t : List Char} {c : Char}

/-- No mark is a blank, so trimming takes none away. -/
theorem isBlank_eq_false (h : c ∈ marks) : isBlank c = false := by
  have hall : ∀ c ∈ marks, isBlank c = false := forall_marks.2 (by decide)
  exact hall c h

/-- Texts without marks make up a text without marks. -/
theorem append (hs : Markless s) (ht : Markless t) : Markless (s ++ t) := by
  intro c hc
  rw [List.mem_append, not_or]
  exact ⟨hs c hc, ht c hc⟩

/-- So does a character that is no mark in front of one. -/
theorem cons (hc : c ∉ marks) (hs : Markless s) : Markless (c :: s) := by
  intro mark hmark
  rw [List.mem_cons, not_or]
  refine ⟨?_, hs mark hmark⟩
  rintro rfl
  exact hc hmark

/-- Blanks hide no comparator. -/
theorem of_trim (h : Markless (trim s)) : Markless s :=
  fun c hc hmem => h c hc (mem_trim hmem (isBlank_eq_false hc))

/-- A text of which each character meets a condition that no mark meets. -/
theorem of_forall {p : Char → Bool} (hp : ∀ c ∈ marks, p c = false) (hs : ∀ c ∈ s, p c = true) :
    Markless s := by
  intro c hc hmem
  have hfalse := hp c hc
  rw [hs c hmem] at hfalse
  cases hfalse

end Markless

/-! ## Numbers -/

namespace Number

variable {s : List Char}

/-- Digits are no marks. -/
theorem markless_of_readOn {acc n : Nat} (h : readOn 10 acc s = some n) : Markless s := by
  induction s generalizing acc with
  | nil => exact fun c _ => List.not_mem_nil
  | cons c rest ih =>
    rw [readOn] at h
    obtain ⟨d, hd, hrest⟩ := Option.bind_eq_some_iff.1 h
    refine .cons ?_ (ih hrest)
    intro hmark
    have hnone : ∀ c ∈ Comparator.marks, digitValue? 10 c = none :=
      Comparator.forall_marks.2 (by decide)
    rw [hnone c hmark] at hd
    cases hd

/-- What is read as digits has no mark. -/
theorem markless_of_readDigits {n : Nat} (h : readDigits 10 s = some n) : Markless s := by
  rw [readDigits] at h
  by_cases hs : s.isEmpty
  · rw [if_pos hs] at h
    cases h
  · rw [if_neg hs] at h
    exact markless_of_readOn h

/-- What is read as an exponent has no mark. -/
theorem markless_of_readExponent {e : Int} (h : readExponent s = some e) : Markless s := by
  unfold readExponent at h
  split at h
  · exact fun c _ => List.not_mem_nil
  · next c rest =>
    split at h
    · next hc =>
      refine .cons (by rcases hc with rfl | rfl <;> decide) ?_
      split at h
      · obtain ⟨n, hn, -⟩ := Option.map_eq_some_iff.1 h
        obtain ⟨m, hm, -⟩ := Option.bind_eq_some_iff.1 hn
        exact .cons (by decide) (markless_of_readDigits hm)
      · obtain ⟨n, hn, -⟩ := Option.map_eq_some_iff.1 h
        exact .cons (by decide) (markless_of_readDigits hn)
      · obtain ⟨n, hn, -⟩ := Option.map_eq_some_iff.1 h
        exact markless_of_readDigits hn
    · cases h

/-- The digits at the front of a text hold no mark, so the text has one only if the rest does. -/
theorem markless_of_takeDigits (h : Markless (takeDigits s).2) : Markless s := by
  have hdigits : Markless (s.takeWhile isDigit) :=
    .of_forall (Comparator.forall_marks.2 (by decide)) fun c hc => List.mem_takeWhile_imp hc
  rw [← List.takeWhile_append_dropWhile (p := isDigit) (l := s)]
  exact hdigits.append h

/-- Marks are no letters, so a text has them in either case or not at all. -/
theorem markless_of_lower (h : Markless (lower s)) : Markless s := by
  intro c hc hmem
  have hlower : ∀ c ∈ Comparator.marks, lowerChar c = c :=
    Comparator.forall_marks.2 (by decide)
  refine h c hc ?_
  rw [← hlower c hc]
  exact List.mem_map_of_mem hmem

/-- The text behind the digits is an exponent, unless there are no digits. -/
theorem markless_of_guarded {bare : Prop} [Decidable bare] {f : Int → Float} {x : Float}
    (h : (if bare then none else (readExponent s).map f) = some x) : Markless s := by
  by_cases hbare : bare
  · rw [if_pos hbare] at h
    cases h
  · rw [if_neg hbare] at h
    obtain ⟨e, he, -⟩ := Option.map_eq_some_iff.1 h
    exact markless_of_readExponent he

/-- What is read as a magnitude has no mark. -/
theorem markless_of_readMagnitude {x : Float} (h : readMagnitude s = some x) : Markless s := by
  unfold readMagnitude at h
  by_cases hinf : lower s = "inf".toList ∨ lower s = "infinity".toList
  · apply markless_of_lower
    rcases hinf with hword | hword <;> rw [hword] <;> decide
  by_cases hnan : lower s = "nan".toList
  · apply markless_of_lower
    rw [hnan]
    decide
  simp only [hinf, hnan, if_false] at h
  apply markless_of_takeDigits
  split at h
  · next rest hrest =>
    rw [hrest]
    exact .cons (by decide) (markless_of_takeDigits (markless_of_guarded h))
  · exact markless_of_guarded h

/-- No number text holds a mark. -/
theorem markless_of_readNumber {x : Float} (h : readNumber s = some x) : Markless s := by
  unfold readNumber at h
  split at h
  · obtain ⟨y, hy, -⟩ := Option.map_eq_some_iff.1 h
    exact .cons (by decide) (markless_of_readMagnitude hy)
  · exact .cons (by decide) (markless_of_readMagnitude h)
  · exact markless_of_readMagnitude h

end Number

/-! ## Statistics -/

namespace Statistic

/-- The texts of the statistics, without the blanks around them. -/
inductive Spelled : List Char → Statistic → Prop where
  | average : Spelled "avg".toList .average
  | median : Spelled "med".toList .median
  | least : Spelled "min".toList .least
  | greatest : Spelled "max".toList .greatest
  | count : Spelled "count".toList .count
  | failureRate : Spelled "rate".toList .failureRate
  | percentile {inner : List Char} {p : Float} (read : Number.readNumber (trim inner) = some p)
      (least : 0.0 ≤ p) (greatest : p ≤ 100.0) :
      Spelled ("p(".toList ++ inner ++ ")".toList) (.percentile p)

variable {s : List Char} {st : Statistic}

/-- No spelling of a statistic has a mark. -/
theorem Spelled.markless (h : Spelled s st) : Markless s := by
  cases h with
  | percentile hread =>
    have hinner := (Number.markless_of_readNumber hread).of_trim
    have hopen : Markless "p(".toList := by decide
    have hclose : Markless ")".toList := by decide
    exact (hopen.append hinner).append hclose
  | _ => decide

/-- A percentile is a number from zero to a hundred. -/
theorem isPercentile_iff {p : Float} : isPercentile p = true ↔ 0.0 ≤ p ∧ p ≤ 100.0 := by
  rw [isPercentile, Bool.and_eq_true, decide_eq_true_eq, decide_eq_true_eq]

/-- The argument of a percentile stands in brackets behind its letter. -/
theorem argument?_eq_some {inner : List Char} :
    argument? s = some inner ↔ s = "p(".toList ++ inner ++ ")".toList := by
  rw [argument?]
  constructor
  · intro h
    obtain ⟨rest, hrest, hinner⟩ := Option.bind_eq_some_iff.1 h
    rw [stripStart?_eq_some hrest, stripEnd?_eq_some.1 hinner, List.append_assoc]
  · rintro rfl
    rw [List.append_assoc, stripStart?_append, Option.bind_some, stripEnd?_eq_some]

/-- What is looked up among the words is one of them. -/
theorem mem_words_of_lookup (h : words.lookup (String.ofList s) = some st) :
    (String.ofList s, st) ∈ words := by
  obtain ⟨before, behind, hsplit, -⟩ := List.lookup_eq_some_iff.1 h
  rw [hsplit]
  exact List.mem_append_right _ List.mem_cons_self

/-- Words and percentiles do not begin with the same character. -/
theorem head?_ne_of_lookup (h : words.lookup (String.ofList s) = some st) :
    s.head? ≠ some 'p' := by
  have hwords : ∀ w ∈ words.map Prod.fst, w.toList.head? ≠ some 'p' := by decide
  have hs := hwords _ (List.mem_map_of_mem (mem_words_of_lookup h))
  rwa [String.toList_ofList] at hs

/-- A word spells its statistic. -/
theorem spelled_of_lookup (h : words.lookup (String.ofList s) = some st) : Spelled s st := by
  have hmem := mem_words_of_lookup h
  rw [← String.toList_ofList (l := s)]
  simp only [words, List.mem_cons, List.not_mem_nil, or_false, Prod.mk.injEq] at hmem
  rcases hmem with ⟨hw, rfl⟩ | ⟨hw, rfl⟩ | ⟨hw, rfl⟩ | ⟨hw, rfl⟩ | ⟨hw, rfl⟩ | ⟨hw, rfl⟩ <;>
    rw [hw] <;> constructor

/-- **A statistic is read exactly from its spellings**, blanks around them aside. -/
theorem readChars_eq_ok : readChars s = .ok st ↔ Spelled (trim s) st := by
  unfold readChars
  generalize trim s = s
  constructor
  · intro h
    cases hword : words.lookup (String.ofList s) with
    | some found =>
      simp only [hword] at h
      obtain rfl := Except.ok.inj h
      exact spelled_of_lookup hword
    | none =>
      cases hargument : argument? s with
      | none => simp [hword, hargument] at h
      | some inner =>
        cases hp : (Number.readNumber (trim inner)).filter isPercentile with
        | none => simp [hword, hargument, hp] at h
        | some p =>
          simp only [hword, hargument, hp] at h
          obtain rfl := Except.ok.inj h
          obtain ⟨hread, hbounds⟩ := Option.filter_eq_some_iff.1 hp
          obtain ⟨hleast, hgreatest⟩ := isPercentile_iff.1 hbounds
          rw [argument?_eq_some.1 hargument]
          exact .percentile hread hleast hgreatest
  · intro h
    cases h with
    | @percentile inner p hread hleast hgreatest =>
      have hargument := argument?_eq_some.2 (rfl : "p(".toList ++ inner ++ ")".toList = _)
      have hword : words.lookup (String.ofList ("p(".toList ++ inner ++ ")".toList)) = none := by
        -- None of the fixed words begins with a `p` and a parenthesis.
        by_contra hsome
        obtain ⟨found, hfound⟩ := Option.ne_none_iff_exists'.1 hsome
        exact head?_ne_of_lookup hfound rfl
      have hp : (Number.readNumber (trim inner)).filter isPercentile = some p :=
        Option.filter_eq_some_iff.2 ⟨hread, isPercentile_iff.2 ⟨hleast, hgreatest⟩⟩
      simp only [hword, hargument, hp]
    | _ => rfl

/-- Whatever is wrong with a statistic, it is not that there is no comparator. -/
theorem readChars_ne_missing (s : List Char) (text : String) :
    readChars s ≠ .error (.missingComparator text) := by
  unfold readChars
  dsimp only
  split
  · simp
  · split
    · simp
    · split <;> simp

end Statistic

/-! ## Comparators -/

namespace Comparator

variable {op : Comparator} {s before behind : List Char}

/-- Every comparator is tried. -/
theorem mem_all (op : Comparator) : op ∈ all := by
  cases op <;> decide

/-- Every comparator begins with a mark. -/
theorem exists_symbol_eq (op : Comparator) :
    ∃ mark ∈ marks, ∃ tail, op.symbol.toList = mark :: tail := by
  cases op <;> exact ⟨_, by decide, _, rfl⟩

/-- No comparator stands in a text without marks. -/
theorem not_isInfix_of_markless (h : Markless s) (op : Comparator) :
    ¬ op.symbol.toList <:+: s := by
  obtain ⟨mark, hmark, tail, hsymbol⟩ := exists_symbol_eq op
  rw [hsymbol]
  exact fun hfound => h mark hmark (hfound.mem List.mem_cons_self)

/-- No comparator begins in a text without marks. -/
theorem length_le_of_markless {first rest : List Char} (h : Markless before)
    (heq : before ++ behind = first ++ (op.symbol.toList ++ rest)) :
    before.length ≤ first.length := by
  obtain ⟨mark, hmark, tail, hsymbol⟩ := exists_symbol_eq op
  rw [hsymbol, List.append_eq_append_iff] at heq
  rcases heq with ⟨between, rfl, -⟩ | ⟨between, rfl, heq⟩
  · rw [List.length_append]
    exact Nat.le_add_right _ _
  · cases between with
    | nil => rw [List.append_nil]
    | cons c between =>
      obtain ⟨rfl, -⟩ := List.cons.inj heq
      exact absurd (List.mem_append_right _ List.mem_cons_self) (h mark hmark)

/-- Of two comparators at one place the longer one has an equals sign where the shorter one has
ended. -/
theorem symbol_append_inj {found : Comparator} {rest : List Char} (hhead : behind.head? ≠ some '=')
    (hlength : op.symbol.length ≤ found.symbol.length)
    (heq : op.symbol.toList ++ behind = found.symbol.toList ++ rest) :
    found = op ∧ rest = behind := by
  cases op <;> cases found <;> first | exact absurd hlength (by decide) | simp_all [symbol]

/-! ### The foremost cut -/

namespace Cut

variable {cuts : List Cut} {cut : Cut}

/-- There is a foremost cut wherever there is one at all. -/
theorem foremost_eq_none : foremost cuts = none ↔ cuts = [] := by
  cases cuts with
  | nil => exact ⟨fun _ => rfl, fun _ => rfl⟩
  | cons cut rest =>
    refine ⟨fun h => ?_, fun h => (by cases h)⟩
    unfold foremost at h
    cases hrest : foremost rest with
    | none =>
      rw [hrest] at h
      cases h
    | some other =>
      rw [hrest] at h
      dsimp only at h
      split at h <;> cases h

/-- No cut precedes the foremost one. -/
theorem foremost_eq_some (h : foremost cuts = some cut) :
    cut ∈ cuts ∧ ∀ other ∈ cuts, ¬ other.Precedes cut := by
  induction cuts generalizing cut with
  | nil => cases h
  | cons front rest ih =>
    have hself : ¬ front.Precedes front := by
      unfold Precedes
      omega
    unfold foremost at h
    cases hrest : foremost rest with
    | none =>
      rw [hrest] at h
      cases h
      rw [foremost_eq_none.1 hrest]
      simpa using hself
    | some best =>
      obtain ⟨hmem, hleast⟩ := ih hrest
      rw [hrest] at h
      dsimp only at h
      -- On a tie the cut that stands first in the list is kept.
      by_cases hprecedes : best.Precedes front
      · rw [if_pos hprecedes] at h
        cases h
        refine ⟨List.mem_cons_of_mem _ hmem, List.forall_mem_cons.2 ⟨?_, hleast⟩⟩
        unfold Precedes at hprecedes ⊢
        omega
      · rw [if_neg hprecedes] at h
        cases h
        refine ⟨List.mem_cons_self, List.forall_mem_cons.2 ⟨hself, fun other hother => ?_⟩⟩
        have hbest := hleast other hother
        unfold Precedes at hprecedes hbest ⊢
        omega

end Cut

variable {cut : Cut}

/-- A cut divides a text around its comparator. -/
theorem cutAt_eq_some (h : cutAt s op = some cut) :
    cut.comparator = op ∧ s = cut.before ++ op.symbol.toList ++ cut.behind := by
  obtain ⟨⟨before, behind⟩, hbreak, rfl⟩ := Option.map_eq_some_iff.1 h
  exact ⟨rfl, breakAt_eq_some hbreak⟩

/-- A cut keeps the text. -/
theorem split_eq_some (h : split s = some cut) :
    s = cut.before ++ cut.comparator.symbol.toList ++ cut.behind := by
  obtain ⟨op, -, hcut⟩ := List.mem_filterMap.1 (Cut.foremost_eq_some h).1
  obtain ⟨rfl, hs⟩ := cutAt_eq_some hcut
  exact hs

/-- The comparator at which a text is cut is the first one in it, and the longest of those that
begin at its place. -/
theorem exists_split (before : List Char) (op : Comparator) (behind : List Char) :
    ∃ cut, split (before ++ op.symbol.toList ++ behind) = some cut ∧
      (cut.before.length < before.length ∨
        cut.before.length = before.length ∧ op.symbol.length ≤ cut.comparator.symbol.length) := by
  obtain ⟨first, rest, hbreak, hlength⟩ := exists_breakAt op.symbol.toList before behind
  generalize before ++ op.symbol.toList ++ behind = s at hbreak ⊢
  have hcut : cutAt s op = some ⟨first, op, rest⟩ := by
    rw [cutAt, hbreak]
    rfl
  have hmem : (⟨first, op, rest⟩ : Cut) ∈ all.filterMap (cutAt s) :=
    List.mem_filterMap.2 ⟨op, mem_all op, hcut⟩
  cases hsplit : split s with
  | none =>
    rw [Cut.foremost_eq_none.1 hsplit] at hmem
    cases hmem
  | some cut =>
    have hleast := (Cut.foremost_eq_some hsplit).2 _ hmem
    refine ⟨cut, rfl, ?_⟩
    simp only [Cut.Precedes] at hleast
    omega

/-- A text is not cut at all if no comparator is in it. -/
theorem split_eq_none_iff : split s = none ↔ ∀ op : Comparator, ¬ op.symbol.toList <:+: s := by
  constructor
  · rintro hnone op ⟨before, behind, rfl⟩
    obtain ⟨cut, hsplit, -⟩ := exists_split before op behind
    rw [hnone] at hsplit
    cases hsplit
  · intro hall
    cases hsplit : split s with
    | none => rfl
    | some cut =>
      have hinfix : cut.comparator.symbol.toList <:+: s :=
        ⟨cut.before, cut.behind, (split_eq_some hsplit).symm⟩
      exact absurd hinfix (hall cut.comparator)

/-- A text without marks around its comparator is cut there. -/
theorem split_of_markless (hbefore : Markless before) (hbehind : Markless behind) :
    split (before ++ op.symbol.toList ++ behind) = some ⟨before, op, behind⟩ := by
  obtain ⟨⟨first, found, rest⟩, hsplit, hplace⟩ := exists_split before op behind
  have hs := split_eq_some hsplit
  simp only [List.append_assoc] at hs
  -- The comparator that was found begins nowhere in front of the one that is known.
  have hle := length_le_of_markless hbefore hs
  dsimp only at hplace
  obtain ⟨rfl, htail⟩ := List.append_inj hs (by omega)
  have hhead : behind.head? ≠ some '=' := fun h =>
    hbehind '=' (by decide) (List.mem_of_mem_head? h)
  obtain ⟨rfl, rfl⟩ := symbol_append_inj hhead (by omega) htail
  exact hsplit

end Comparator

/-! ## Conditions -/

namespace Condition

/-- Whether a text is a condition, with a part before its comparator and a part behind it. -/
structure Spells (s before behind : List Char) (c : Condition) : Prop where
  cut : s = before ++ c.comparator.symbol.toList ++ behind
  statistic : Statistic.Spelled (trim before) c.statistic
  bound : Number.readNumber (trim behind) = some c.bound

variable {s before behind : List Char} {c : Condition}

/-- A condition is cut where its parts meet. -/
theorem Spells.split_eq (h : Spells s before behind c) :
    Comparator.split s = some ⟨before, c.comparator, behind⟩ := by
  rw [h.cut]
  have hbehind := Number.markless_of_readNumber h.bound
  exact Comparator.split_of_markless h.statistic.markless.of_trim hbehind.of_trim

/-- No text is a condition in two ways. -/
theorem Spells.unique {before' behind' : List Char} {c' : Condition} (h : Spells s before behind c)
    (h' : Spells s before' behind' c') : before = before' ∧ behind = behind' ∧ c = c' := by
  have hcut : some (⟨before, c.comparator, behind⟩ : Comparator.Cut) =
      some ⟨before', c'.comparator, behind'⟩ := by
    rw [← h.split_eq, h'.split_eq]
  simp only [Option.some.injEq, Comparator.Cut.mk.injEq] at hcut
  obtain ⟨rfl, hcomparator, rfl⟩ := hcut
  have hstatistic : Except.ok (ε := ParseError) c.statistic = .ok c'.statistic := by
    rw [← Statistic.readChars_eq_ok.2 h.statistic, Statistic.readChars_eq_ok.2 h'.statistic]
  have hbound : some c.bound = some c'.bound := by
    rw [← h.bound, h'.bound]
  refine ⟨rfl, rfl, ?_⟩
  cases c
  cases c'
  cases hcomparator
  cases hstatistic
  cases hbound
  rfl

/-- **A condition is read exactly from its spellings.** -/
theorem readChars_eq_ok : readChars s = .ok c ↔ ∃ before behind, Spells s before behind c := by
  constructor
  · intro h
    unfold readChars at h
    cases hsplit : Comparator.split s with
    | none => simp [hsplit] at h
    | some cut =>
      simp only [hsplit] at h
      obtain ⟨st, hst, h⟩ := bind_eq_ok.1 h
      cases hbound : Number.readNumber (trim cut.behind) with
      | none => simp [hbound] at h
      | some bound =>
        simp only [hbound] at h
        obtain rfl := Except.ok.inj h
        exact ⟨cut.before, cut.behind, Comparator.split_eq_some hsplit,
          Statistic.readChars_eq_ok.1 hst, hbound⟩
  · rintro ⟨before, behind, h⟩
    unfold readChars
    simp only [h.split_eq, Statistic.readChars_eq_ok.2 h.statistic, h.bound]
    rfl

/-- The reader misses a comparator only where there is none. -/
theorem readChars_eq_missing {text : String} :
    readChars s = .error (.missingComparator text) ↔
      text = String.ofList s ∧ Comparator.split s = none := by
  unfold readChars
  cases hsplit : Comparator.split s with
  | none => simp [eq_comm]
  | some cut =>
    -- The errors that are left are of the statistic and of the bound.
    simp only [reduceCtorEq, and_false, iff_false]
    intro h
    cases hst : Statistic.readChars cut.before with
    | error e =>
      rw [hst] at h
      obtain rfl := Except.error.inj h
      exact Statistic.readChars_ne_missing cut.before text hst
    | ok st =>
      rw [hst] at h
      cases hbound : Number.readNumber (trim cut.behind) with
      | none => simp [hbound, bind, Except.bind] at h
      | some bound => simp [hbound, bind, Except.bind, pure, Except.pure] at h

/-- **A condition is read from a text exactly if the text spells it**: a statistic, its comparator
and its bound, with blanks around the two.  The text can be cut in one way only.  The reader says
that there is no comparator exactly if none of the six is anywhere in the text. -/
theorem read_iff_spells (s : String) :
    (∀ c, read s = .ok c ↔ ∃ before behind, Spells s.toList before behind c) ∧
      (∀ before behind c before' behind' c', Spells s.toList before behind c →
        Spells s.toList before' behind' c' → before = before' ∧ behind = behind' ∧ c = c') ∧
      ∀ text, read s = .error (.missingComparator text) ↔
        text = s ∧ ∀ op : Comparator, ¬ op.symbol.toList <:+: s.toList := by
  refine ⟨fun c => readChars_eq_ok, fun _ _ _ _ _ _ h h' => h.unique h', fun text => ?_⟩
  rw [read, readChars_eq_missing, String.ofList_toList, Comparator.split_eq_none_iff]

/-- Of two comparators at one place the longer one counts, and blanks do not matter; without a
comparator there is no condition. -/
theorem read_iff_spells_count :
    (∃ c, read " count >=  1 " = .ok c ∧ c.comparator = .ge) ∧
      read "count 1" = .error (.missingComparator "count 1") ∧
      read "count =< 1" = .error (.unknownStatistic "count =") := by
  have hmissing := Comparator.not_isInfix_of_markless (s := "count 1".toList) (by decide)
  have hbound : (Number.readNumber (trim "  1 ".toList)).isSome := by decide
  obtain ⟨x, hx⟩ := Option.isSome_iff_exists.1 hbound
  have hspells : Spells " count >=  1 ".toList " count ".toList "  1 ".toList ⟨.count, .ge, x⟩ := by
    have hcut : " count >=  1 ".toList = " count ".toList ++ ">=".toList ++ "  1 ".toList := by
      decide
    have htrim : trim " count ".toList = "count".toList := by decide
    refine ⟨hcut, ?_, hx⟩
    rw [htrim]
    exact .count
  refine ⟨⟨_, ((read_iff_spells _).1 _).2 ⟨_, _, hspells⟩, rfl⟩, ?_, rfl⟩
  exact ((read_iff_spells _).2.2 _).2 ⟨rfl, hmissing⟩

end Condition

end LoadReplay
