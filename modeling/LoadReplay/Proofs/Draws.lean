import LoadReplay.Random.Draw
import Mathlib.Algebra.GroupWithZero.Nat
import Mathlib.Data.Nat.Find
import Mathlib.Tactic.Ring

/-!
# Draws keep to their bounds

A number that is drawn from a range is in the range, whatever the generator is at and however often
a word is refused (`Source.between_bounds`).  A length is drawn as a number of nanoseconds that fits
in a word, and so are its bounds: what lies beyond the word is cut off.  An upper bound that is cut
off is kept all the more; a lower bound that is cut off is lost.

The limit on the words of one draw leaves nothing out.  A generator reads off one place after
another of the stream of its key (`Generator.Placed.next32`), the stream begins anew after
`maxTries` words (`wordAt_add_period`), and so a draw that the limit would cut short never ends
without it either (`Source.accept_settled`).

Main statement: `spanBetween_within`.
-/

namespace LoadReplay.Random

/-! ## Places in a stream -/

section Streams

/-- The word at a place in the stream of a key. -/
def wordAt (key : List UInt32) (i : Nat) : UInt32 := (block key (i / 16).toUInt64).at (i % 16)

/-- The blocks have numbers of 64 bits and sixteen words each: the stream begins anew after `2 ^ 68`
words. -/
theorem wordAt_add_period (key : List UInt32) (i : Nat) :
    wordAt key (i + maxTries) = wordAt key i := by
  have hperiod : maxTries = 2 ^ 68 := rfl
  have hdiv : (i + maxTries) / 16 = i / 16 + 2 ^ 64 := by omega
  have hwithin : (i + maxTries) % 16 = i % 16 := by omega
  have hblock : ((i + maxTries) / 16).toUInt64 = (i / 16).toUInt64 := by
    rw [hdiv]
    refine UInt64.toNat_inj.1 ?_
    rw [Nat.toUInt64, UInt64.toNat_ofNat', UInt64.toNat_ofNat', Nat.add_mod_right]
  rw [wordAt, wordAt, hblock, hwithin]

/-- The block at hand is the one that the next word is in, unless that begins a block. -/
def Generator.Placed (g : Generator) : Prop :=
  g.position % 16 ≠ 0 → g.current = block g.key (g.position / 16).toUInt64

variable {g : Generator}

/-- At the beginning of a stream no block is needed. -/
theorem Generator.placed_ofKey (key : List UInt32) : (Generator.ofKey key).Placed :=
  fun h => absurd rfl h

/-- A generator gives the word at its place and goes on to the next one. -/
theorem Generator.Placed.next32 (h : g.Placed) :
    g.next32.1 = wordAt g.key g.position ∧ g.next32.2.Placed ∧
      g.next32.2.key = g.key ∧ g.next32.2.position = g.position + 1 := by
  have hcurrent : g.next32.2.current = block g.key (g.position / 16).toUInt64 := by
    show (if g.position % 16 = 0 then _ else _) = _
    by_cases hbegin : g.position % 16 = 0
    · exact if_pos hbegin
    · exact (if_neg hbegin).trans (h hbegin)
  refine ⟨congrArg (Block.at · _) hcurrent, fun hwithin => ?_, rfl, rfl⟩
  -- The next place is in the same block, as it does not begin one.
  have hsame : (g.position + 1) / 16 = g.position / 16 := by
    have hne : (g.position + 1) % 16 ≠ 0 := hwithin
    omega
  exact hcurrent.trans (congrArg (fun b => block g.key b.toUInt64) hsame.symm)

/-- A source that makes a word of `size` words of the stream, from the place of the generator on. -/
structure Source.Reads (s : Source) (size : Nat) (word : List UInt32 → Nat → Nat) : Prop where
  next : ∀ g : Generator, g.Placed → (s.next g).1 = word g.key g.position ∧ (s.next g).2.Placed ∧
    (s.next g).2.key = g.key ∧ (s.next g).2.position = g.position + size
  period : ∀ key i, word key (i + maxTries) = word key i

/-- A word of 32 bits is one of the stream, -/
theorem Source.reads_words32 : Source.words32.Reads 1 fun key i => (wordAt key i).toNat where
  next _ h := ⟨congrArg UInt32.toNat h.next32.1, h.next32.2⟩
  period key i := congrArg UInt32.toNat (wordAt_add_period key i)

/-- and a word of 64 bits is made of two. -/
theorem Source.reads_words64 : Source.words64.Reads 2 fun key i =>
    ((wordAt key i).toUInt64 ||| ((wordAt key (i + 1)).toUInt64 <<< 32)).toNat where
  next g h := by
    obtain ⟨hlow, hplaced, hkey, hposition⟩ := h.next32
    obtain ⟨hhigh, hplaced', hkey', hposition'⟩ := hplaced.next32
    rw [hkey, hposition] at hhigh
    refine ⟨?_, hplaced', hkey'.trans hkey, hposition'.trans (congrArg (· + 1) hposition)⟩
    show (g.next32.1.toUInt64 ||| (g.next32.2.next32.1.toUInt64 <<< 32)).toNat = _
    rw [hlow, hhigh]
  period key i := by
    show (_ ||| ((wordAt key (i + maxTries + 1)).toUInt64 <<< 32)).toNat = _
    rw [Nat.add_right_comm, wordAt_add_period, wordAt_add_period]

/-! ## Words that are refused -/

/-- The next word is refused in a draw from `n` values. -/
def Source.Refuses (s : Source) (n : Nat) (g : Generator) : Prop :=
  s.zone n < (s.next g).1 * n % Nat.pow 2 s.width

/-- The generator after a number of words. -/
def Source.after (s : Source) (g : Generator) : Nat → Generator
  | 0 => g
  | k + 1 => s.after (s.next g).2 k

variable {s : Source} {size n : Nat} {word : List UInt32 → Nat → Nat}

/-- The words that a source gives one after another are read off the stream of the key. -/
theorem Source.Reads.next_after (h : s.Reads size word) (hg : g.Placed) (k : Nat) :
    (s.next (s.after g k)).1 = word g.key (g.position + k * size) := by
  induction k generalizing g with
  | zero =>
    rw [Nat.zero_mul]
    exact (h.next g hg).1
  | succ k ih =>
    obtain ⟨-, hplaced, hkey, hposition⟩ := h.next g hg
    rw [Source.after, ih hplaced, hkey, hposition, Nat.add_assoc, Nat.succ_mul, Nat.add_comm size]

/-- The same words come again after any number of periods. -/
theorem Source.Reads.period_mul (h : s.Reads size word) (key : List UInt32) (i m : Nat) :
    word key (i + m * maxTries) = word key i := by
  induction m with
  | zero => rw [Nat.zero_mul, Nat.add_zero]
  | succ m ih => rw [Nat.succ_mul, ← Nat.add_assoc, h.period, ih]

/-- After `maxTries` words a source gives the same ones again. -/
theorem Source.Reads.next_after_mod (h : s.Reads size word) (hg : g.Placed) (k : Nat) :
    (s.next (s.after g k)).1 = (s.next (s.after g (k % maxTries))).1 := by
  have hsplit : g.position + k * size =
      g.position + k % maxTries * size + k / maxTries * size * maxTries :=
    calc g.position + k * size
        = g.position + (k % maxTries + maxTries * (k / maxTries)) * size := by rw [Nat.mod_add_div]
      _ = g.position + k % maxTries * size + k / maxTries * size * maxTries := by ring
  rw [h.next_after hg, h.next_after hg, hsplit, h.period_mul]

/-- Whoever has been refused `maxTries` words is refused for ever. -/
theorem Source.Reads.refuses (h : s.Reads size word) (hg : g.Placed)
    (hall : ∀ k < maxTries, s.Refuses n (s.after g k)) (k : Nat) : s.Refuses n (s.after g k) := by
  have hmod := hall (k % maxTries) (Nat.mod_lt k (Nat.pow_pos (Nat.zero_lt_two)))
  rwa [Source.Refuses, ← h.next_after_mod hg] at hmod

/-- The first word that is not refused makes the number, whatever the limit is behind it. -/
theorem Source.accept_of_first {k tries : Nat} (hlt : k < tries)
    (hbefore : ∀ j < k, s.Refuses n (s.after g j)) (hk : ¬ s.Refuses n (s.after g k)) :
    s.accept n g tries =
      ((s.next (s.after g k)).1 * n / Nat.pow 2 s.width, (s.next (s.after g k)).2) := by
  induction k generalizing g tries with
  | zero =>
    obtain ⟨tries, rfl⟩ := Nat.exists_eq_add_of_lt hlt
    rw [Nat.zero_add, Source.accept]
    exact if_pos (Nat.not_lt.1 hk)
  | succ k ih =>
    obtain ⟨tries, rfl⟩ := Nat.exists_eq_add_of_lt (Nat.zero_lt_of_lt hlt)
    rw [Nat.zero_add, Source.accept]
    rw [Nat.zero_add] at hlt
    have hrefused : ¬ (s.next g).1 * n % Nat.pow 2 s.width ≤ s.zone n :=
      Nat.not_le.2 (hbefore 0 (Nat.succ_pos k))
    refine (if_neg hrefused).trans (ih (Nat.lt_of_succ_lt_succ hlt) (fun j hj => ?_) hk)
    exact hbefore (j + 1) (Nat.succ_lt_succ hj)

/-- **The limit on the words of a draw leaves nothing out.**  Either one of the first `maxTries`
words makes the number, and then it does so under any other limit that lets it be drawn, or every
word is refused for ever, and a draw without a limit would have no end. -/
theorem Source.accept_settled (h : s.Reads size word) (hg : g.Placed) (n : Nat) :
    (∃ k < maxTries, (∀ j < k, s.Refuses n (s.after g j)) ∧ ¬ s.Refuses n (s.after g k) ∧
      ∀ tries > k, s.accept n g tries = s.accept n g maxTries) ∨
    ∀ k, s.Refuses n (s.after g k) := by
  classical
  by_cases hsome : ∃ k, ¬ s.Refuses n (s.after g k)
  · obtain ⟨hfirst, hbefore⟩ := And.intro (Nat.find_spec hsome) fun j => Nat.find_min (m := j) hsome
    have hbefore' : ∀ j < Nat.find hsome, s.Refuses n (s.after g j) :=
      fun j hj => Classical.not_not.1 (hbefore j hj)
    have hlt : Nat.find hsome < maxTries := Nat.not_le.1 fun hge =>
      hfirst (h.refuses hg (fun k hk => hbefore' k (Nat.lt_of_lt_of_le hk hge)) _)
    refine Or.inl ⟨Nat.find hsome, hlt, hbefore', hfirst, fun tries htries => ?_⟩
    rw [Source.accept_of_first htries hbefore' hfirst, Source.accept_of_first hlt hbefore' hfirst]
  · exact Or.inr fun k => Classical.not_not.1 fun hk => hsome ⟨k, hk⟩

/-! A generator is at its place after every draw, as it is at the beginning. -/

/-- However many words are refused, the generator is at its place. -/
theorem Source.Reads.placed_accept (h : s.Reads size word) (hg : g.Placed) (n tries : Nat) :
    (s.accept n g tries).2.Placed := by
  induction tries generalizing g with
  | zero => exact hg
  | succ tries ih =>
    obtain ⟨-, hplaced, -⟩ := h.next g hg
    rw [Source.accept]
    dsimp only
    split
    · exact hplaced
    · exact ih hplaced

/-- So it is when a number was drawn, -/
theorem Source.Reads.placed_between (h : s.Reads size word) (hg : g.Placed) (low high : Nat) :
    (s.between low high g).2.Placed := by
  rw [Source.between]
  dsimp only
  split
  · exact (h.next g hg).2.1
  · exact h.placed_accept hg _ _

/-- when a length was drawn, -/
theorem Generator.Placed.spanBetween (hg : g.Placed) (low high : Span) :
    (spanBetween low high g).2.Placed := by
  rw [Random.spanBetween]
  split
  · exact hg
  · exact Source.reads_words64.placed_between hg _ _

/-- at each swap of a permutation, -/
theorem Generator.Placed.shuffleDown {α : Type} (hg : g.Placed) (items : Array α) (last : Nat) :
    (shuffleDown items g last).2.Placed := by
  induction last generalizing items g with
  | zero => exact hg
  | succ last ih => exact ih (Source.reads_words32.placed_between hg 0 (last + 1)) _

/-- and behind it. -/
theorem Generator.Placed.shuffled {α : Type} (hg : g.Placed) (items : List α) :
    (shuffled items g).2.Placed :=
  hg.shuffleDown _ _

end Streams

/-! ## Numbers -/

/-- A number that is drawn from a range is in it, also when all tries are used up. -/
theorem Source.accept_lt {s : Source} (hs : ∀ g, (s.next g).1 < 2 ^ s.width) {n : Nat}
    (hn : 0 < n) (g : Generator) (tries : Nat) : (s.accept n g tries).1 < n := by
  induction tries generalizing g with
  | zero => exact hn
  | succ tries ih =>
    rw [Source.accept]
    dsimp only
    split
    · exact Nat.div_lt_of_lt_mul (Nat.mul_lt_mul_of_pos_right (hs g) hn)
    · exact ih _

/-- A number from a range is in the range. -/
theorem Source.between_bounds {s : Source} (hs : ∀ g, (s.next g).1 < 2 ^ s.width) {low high : Nat}
    (hle : low ≤ high) (hhigh : high < 2 ^ s.width) (g : Generator) :
    low ≤ (s.between low high g).1 ∧ (s.between low high g).1 ≤ high := by
  rw [Source.between]
  dsimp only
  by_cases hall : high - low + 1 = Nat.pow 2 s.width
  · -- Every word is wanted only if the range has all of them.
    have hpow : Nat.pow 2 s.width = 2 ^ s.width := rfl
    have hword := hs g
    rw [if_pos hall]
    omega
  · have hdrawn : (s.accept (high - low + 1) g maxTries).1 < high - low + 1 :=
      Source.accept_lt hs (Nat.succ_pos _) g maxTries
    rw [if_neg hall]
    dsimp only
    omega

/-- A word of 64 bits is less than 2^64. -/
theorem Source.words64_lt (g : Generator) : (Source.words64.next g).1 < 2 ^ Source.words64.width :=
  g.next64.1.toNat_lt

/-! ## Lengths -/

theorem clippedNanos_eq (a : Span) : clippedNanos a = min a.nanos (2 ^ 64 - 1) := rfl

section Lengths

variable {low high : Span}

/-- Without a second value nothing is drawn. -/
theorem spanBetween_of_le (h : high ≤ low) (g : Generator) : (spanBetween low high g).1 = low := by
  rw [spanBetween, if_pos h]

/-- A length that is drawn keeps to its bounds as far as they are counted. -/
theorem spanBetween_bounds (hlt : low < high) (g : Generator) :
    clippedNanos low ≤ (spanBetween low high g).1.nanos ∧
      (spanBetween low high g).1.nanos ≤ clippedNanos high := by
  have hnot : ¬ high ≤ low := Nat.not_le.2 hlt
  rw [Span.lt_def] at hlt
  have hclipped := clippedNanos_eq low
  have hclipped' := clippedNanos_eq high
  obtain ⟨hlow, hhigh⟩ := Source.between_bounds Source.words64_lt
    (show clippedNanos low ≤ clippedNanos high by omega)
    (show clippedNanos high < 2 ^ 64 by omega) g
  rw [spanBetween, if_neg hnot]
  show _ ≤ (Source.words64.between _ _ g).1.toUInt64.toNat ∧
    (Source.words64.between _ _ g).1.toUInt64.toNat ≤ _
  have hsame : (Source.words64.between (clippedNanos low) (clippedNanos high) g).1.toUInt64.toNat =
      (Source.words64.between (clippedNanos low) (clippedNanos high) g).1 :=
    UInt64.toNat_ofNat_of_lt' (show _ < 2 ^ 64 by omega)
  rw [hsame]
  exact ⟨hlow, hhigh⟩

/-- A length that is drawn is not below a lower bound that is counted in full. -/
theorem le_spanBetween (hfits : low.nanos < 2 ^ 64) (high : Span) (g : Generator) :
    low ≤ (spanBetween low high g).1 := by
  by_cases hle : high ≤ low
  · rw [spanBetween_of_le hle]
    exact Nat.le_refl _
  · have hclipped := clippedNanos_eq low
    obtain ⟨hlow, -⟩ := spanBetween_bounds (Nat.not_le.1 hle) g
    rw [Span.le_def]
    omega

/-- A length that is drawn is not above its upper bound. -/
theorem spanBetween_le (hle : low ≤ high) (g : Generator) : (spanBetween low high g).1 ≤ high := by
  by_cases hge : high ≤ low
  · rw [spanBetween_of_le hge]
    exact hle
  · have hclipped := clippedNanos_eq high
    obtain ⟨-, hhigh⟩ := spanBetween_bounds (Nat.not_le.1 hge) g
    rw [Span.le_def]
    omega

/-- Where both bounds are cut off, there is nothing left to draw. -/
theorem nanos_spanBetween_of_beyond (hlt : low < high) (hbeyond : 2 ^ 64 ≤ low.nanos)
    (g : Generator) : (spanBetween low high g).1.nanos = 2 ^ 64 - 1 := by
  have hclipped := clippedNanos_eq low
  have hclipped' := clippedNanos_eq high
  have hbounds := spanBetween_bounds hlt g
  rw [Span.lt_def] at hlt
  omega

/-- **Which bounds a random length keeps to.**  Whatever the generator is at, a length that is drawn
is never above the upper bound, also where only an upper bound is given.  It is not below the lower
bound exactly if that fits in a word, or if there is nothing to draw because the bounds are the
same.  Any other lower bound is lost: then the length is the greatest one that fits in a word. -/
theorem spanBetween_within (hle : low ≤ high) (g : Generator) :
    (spanUpTo high g).1 ≤ high ∧
    (spanBetween low high g).1 ≤ high ∧
    (low ≤ (spanBetween low high g).1 ↔ low.nanos < 2 ^ 64 ∨ low = high) ∧
    (low < high → 2 ^ 64 ≤ low.nanos → (spanBetween low high g).1.nanos = 2 ^ 64 - 1) := by
  refine ⟨spanBetween_le (Nat.zero_le _) g, spanBetween_le hle g, ⟨fun hlow => ?_, ?_⟩,
    fun hlt hbeyond => nanos_spanBetween_of_beyond hlt hbeyond g⟩
  · rcases Nat.lt_or_ge low.nanos (2 ^ 64) with hfits | hbeyond
    · exact Or.inl hfits
    · refine Or.inr (Span.ext_nanos (Nat.le_antisymm hle (Nat.not_lt.1 fun hlt => ?_)))
      have hdrawn := nanos_spanBetween_of_beyond hlt hbeyond g
      rw [Span.le_def] at hlow
      omega
  · rintro (hfits | rfl)
    · exact le_spanBetween hfits high g
    · rw [spanBetween_of_le (Nat.le_refl _)]
      exact Nat.le_refl _

/-- Two ages, the first one longer than a word of nanoseconds can tell. -/
theorem spanBetween_within_ages :
    let low : Span := ⟨20_000_000_000_000_000_000, by decide⟩
    let high : Span := ⟨maxNanos, Nat.le_refl _⟩
    low ≤ high ∧ ¬ low ≤ (spanBetween low high (.ofSeed 99)).1 ∧
      (spanBetween low high (.ofSeed 99)).1.nanos = 18_446_744_073_709_551_615 := by
  intro low high
  have hle : low ≤ high := by decide
  have hlt : low < high := by decide
  obtain ⟨-, -, hlow, hlost⟩ := spanBetween_within hle (.ofSeed 99)
  refine ⟨hle, fun hkept => ?_, hlost hlt (by decide)⟩
  rcases hlow.1 hkept with hfits | heq
  · exact absurd hfits (by decide)
  · exact absurd heq (by decide)

end Lengths

end LoadReplay.Random
