import LoadReplay.Proofs.FlatSelection
import LoadReplay.Threshold.Condition
import Mathlib.Algebra.Order.Field.Rat
import Mathlib.Algebra.Order.Floor.Ring
import Mathlib.Data.Rat.Floor
import Mathlib.Tactic.Linarith
import Mathlib.Tactic.Positivity

/-!
# What the statistics say of samples

Each statistic of a selection is computed from its count, its failures and its ascending latencies.
`Statistic.Says` states for each of them what the number is, of a plain list of samples and without
a selection: a count is a count, the least latency is one of the latencies and none is less, a
percentile is what the samples on both sides of its rank say.

## Shape of the proof

The count, the failures and the latencies of a selection depend on the wanted samples alone
(`Selection.Matches`).  Each figure is there if any sample is: a percentile because its place is in
the list (`place_lt`), the others at once.  That places are in the list is a fact about exact ranks,
so percentiles are placed by exact arithmetic here.  Only how far beyond the lower value a place is
has to become a binary64 number, and how that is rounded does not matter.

Main statement: `Selection.Matches.exists_computeBy`.
-/

namespace LoadReplay

namespace Metric

open Number

/-! ## Ranks -/

section Rank

/-- The part of the whole that a percentage is: never less than nothing, never more than all. -/
def part (p : Rat) : Rat := max 0 (min p 100) / 100

/-- The part of the way that a percentile stands for lies between nothing and everything. -/
theorem part_bounds (p : Rat) : 0 ≤ part p ∧ part p ≤ 1 := by
  have hlow : 0 ≤ max 0 (min p 100) := le_max_left _ _
  have hhigh : max 0 (min p 100) ≤ 100 := max_le (by norm_num) (min_le_right _ _)
  rw [part]
  constructor <;> linarith

/-- A number is kept between its bounds. -/
theorem clamp_eq (low high x : Rat) (h : low ≤ high) : clamp low high x = max low (min x high) := by
  have hlt : ∀ a b : Rat, Scalar.lt a b = decide (a < b) := fun _ _ => rfl
  simp only [clamp, hlt, decide_eq_true_eq]
  grind

/-- The rank is that part of the way to the last place. -/
theorem rank_eq (n : Nat) (p : Rat) : rank n p = part p * ((n - 1 : Nat) : Rat) := by
  have hclamp := clamp_eq 0 100 p (by norm_num)
  rw [part, ← hclamp]
  rfl

/-- It lies between the first place and the last one. -/
theorem rank_bounds (n : Nat) (p : Rat) : 0 ≤ rank n p ∧ rank n p ≤ ((n - 1 : Nat) : Rat) := by
  obtain ⟨hlow, hhigh⟩ := part_bounds p
  have hlast : (0 : Rat) ≤ ((n - 1 : Nat) : Rat) := Nat.cast_nonneg _
  rw [rank_eq]
  exact ⟨mul_nonneg hlow hlast, mul_le_of_le_one_left hlast hhigh⟩

/-- A place is given by the whole numbers around the rank. -/
theorem place_eq (n : Nat) (p : Rat) :
    place n p = ⟨⌊rank n p⌋₊, ⌈rank n p⌉₊, rank n p - ⌊rank n p⌋₊⟩ := by
  have hfloor : (rank n p).floor = ⌊rank n p⌋ := rfl
  have hceil : (rank n p).ceil = ⌈rank n p⌉ :=
    eq_of_forall_ge_iff fun c => by rw [Rat.ceil_le_iff, Int.ceil_le]
  have hplace : place n p =
      ⟨(rank n p).floor.toNat, (rank n p).ceil.toNat,
        rank n p - ((rank n p).floor.toNat : Nat)⟩ := rfl
  rw [hplace, hfloor, hceil, Int.floor_toNat, Int.ceil_toNat]

/-- Both of them are places of samples. -/
theorem ceil_rank_lt {n : Nat} (hn : 0 < n) (p : Rat) : ⌈rank n p⌉₊ < n :=
  Nat.lt_of_le_of_lt (Nat.ceil_le.2 (rank_bounds n p).2) (Nat.sub_one_lt_of_lt hn)

/-- The exact place of a percentile is in the list. -/
theorem place_lt {n : Nat} (hn : 0 < n) (p : Rat) :
    (place n p).below < n ∧ (place n p).above < n := by
  have hceil := ceil_rank_lt hn p
  rw [place_eq]
  exact ⟨Nat.lt_of_le_of_lt (Nat.floor_le_ceil _) hceil, hceil⟩

end Rank

/-! ## Percentiles by exact ranks -/

/-- The number on the scale of percentiles that a binary64 value stands for.  An infinite one stands
for the end of the scale on its side, a NaN for none. -/
def percentage? : Number.Parts → Option Rat
  | .nan => none
  | .infinite negative => some (if negative then 0 else 100)
  | .finite negative significand exponent =>
    let magnitude := Number.fraction significand exponent
    let x := (magnitude.1 : Rat) / magnitude.2
    some (if negative then -x else x)

/-- The place of a percentile among `n` values by exact arithmetic on ranks.  How far the place is
beyond the lower value is rounded by `round`.  A NaN is at the first value. -/
def exactPlace (round : Rat → Float) (n : Nat) (p : Float) : Place Float :=
  match percentage? (Number.parts p) with
  | none => ⟨0, 0, round 0⟩
  | some x =>
    let exact := place n x
    ⟨exact.below, exact.above, round exact.beyond⟩

/-- The part of the whole that a percentage is.  A NaN is none of it. -/
def share (p : Float) : Rat := (percentage? (Number.parts p)).elim 0 part

/-- Fifty of a hundred is a half. -/
theorem share_fifty : share 50.0 = 1 / 2 := by decide +kernel

/-- The exact place is between the whole ranks on both sides of the exact rank. -/
theorem exactPlace_eq (round : Rat → Float) (n : Nat) (p : Float) :
    exactPlace round n p =
      let r := share p * ((n - 1 : Nat) : Rat)
      ⟨⌊r⌋₊, ⌈r⌉₊, round (r - ⌊r⌋₊)⟩ := by
  rw [exactPlace, share]
  cases percentage? (Number.parts p) with
  | none => simp
  | some x =>
    show (⟨(place n x).below, (place n x).above, round (place n x).beyond⟩ : Place Float) = _
    rw [place_eq, rank_eq, Option.elim_some]

/-- What the values of an ascending list say at a rank: the value that has the rank, or a value
between those of the two ranks beside it, moved into the range of the list. -/
structure IsAt (round : Rat → Float) (l : List Float) (r : Rat) (x : Float) : Prop where
  whole : ∀ k : Nat, r = k → l[k]? = some x
  between : ∀ k : Nat, k < r → r < k + 1 → ∃ first last low high, l.head? = some first ∧
    l.getLast? = some last ∧ l[k]? = some low ∧ l[k + 1]? = some high ∧
    x = clamp first last (low + (high - low) * round (r - k))

/-- There is a value at every place in a list: it is the lower one, or it is between the two. -/
theorem exists_valueAt {l : List Float} {p : Place Float} (hbelow : p.below < l.length)
    (habove : p.above < l.length) : ∃ first last low high x, l.head? = some first ∧
      l.getLast? = some last ∧ l[p.below]? = some low ∧ l[p.above]? = some high ∧
      valueAt l p = some x ∧
      x = if p.below = p.above then low else clamp first last (low + (high - low) * p.beyond) := by
  have hne : l ≠ [] := List.ne_nil_of_length_pos (Nat.zero_lt_of_lt hbelow)
  have hfirst := List.head?_eq_some_head hne
  have hlast := List.getLast?_eq_some_getLast hne
  have hlow := List.getElem?_eq_getElem hbelow
  have hhigh := List.getElem?_eq_getElem habove
  refine ⟨_, _, _, _, _, hfirst, hlast, hlow, hhigh, ?_, rfl⟩
  rw [valueAt, hfirst, hlast, hlow, hhigh]
  simp only [Option.bind_eq_bind, Option.bind_some]
  split_ifs <;> rfl

/-- A list that is not empty says something at every exact rank. -/
theorem exists_isAt {l : List Float} (hne : l ≠ []) (round : Rat → Float) (p : Float) :
    ∃ x, valueAt l (exactPlace round l.length p) = some x ∧
      IsAt round l (share p * ((l.length - 1 : Nat) : Rat)) x := by
  have hpos : 0 < l.length := List.length_pos_of_ne_nil hne
  have hshare : 0 ≤ share p ∧ share p ≤ 1 := by
    rw [share]
    cases percentage? (Number.parts p) with
    | none => exact ⟨le_refl 0, zero_le_one⟩
    | some x => exact part_bounds x
  have hlast : (0 : Rat) ≤ ((l.length - 1 : Nat) : Rat) := Nat.cast_nonneg _
  rw [exactPlace_eq]
  generalize hr : share p * ((l.length - 1 : Nat) : Rat) = r
  have hrank : r ≤ ((l.length - 1 : Nat) : Rat) := by
    rw [← hr]
    exact mul_le_of_le_one_left hlast hshare.2
  have hzero : 0 ≤ r := by
    rw [← hr]
    exact mul_nonneg hshare.1 hlast
  have hceil : ⌈r⌉₊ < l.length :=
    Nat.lt_of_le_of_lt (Nat.ceil_le.2 hrank) (Nat.sub_one_lt_of_lt hpos)
  have hfloor : ⌊r⌋₊ < l.length := Nat.lt_of_le_of_lt (Nat.floor_le_ceil r) hceil
  obtain ⟨first, last, low, high, x, hhead, hend, hlow, hhigh, hx, hvalue⟩ :=
    exists_valueAt (p := ⟨⌊r⌋₊, ⌈r⌉₊, round (r - ⌊r⌋₊)⟩) hfloor hceil
  refine ⟨x, hx, fun k hk => ?_, fun k hk hk' => ?_⟩
  · -- At a whole rank both neighbours are the value that has it.
    subst hk
    simp only [Nat.floor_natCast, Nat.ceil_natCast, if_true] at hlow hvalue
    rw [hlow, hvalue]
  · have hk₀ : ⌊r⌋₊ = k := (Nat.floor_eq_iff hzero).2 ⟨hk.le, hk'⟩
    have hk₁ : ⌈r⌉₊ = k + 1 := (Nat.ceil_eq_iff k.succ_ne_zero).2
      ⟨by simpa using hk, by exact_mod_cast hk'.le⟩
    simp only [hk₀, hk₁] at hlow hhigh hvalue
    rw [if_neg (Nat.ne_of_lt k.lt_succ_self)] at hvalue
    exact ⟨first, last, low, high, hhead, hend, hlow, hhigh, hvalue⟩

/-- The latencies of samples in ascending order. -/
structure IsLatencies (samples : List Sample) (l : List Float) : Prop where
  perm : l.Perm (samples.map (·.latencyMs))
  ascending : Ascending l

end Metric

open LoadReplay.Metric

/-- What a statistic says of samples, where percentiles are placed by exact arithmetic on ranks. -/
def Statistic.Says (round : Rat → Float) (samples : List Sample) (x : Float) : Statistic → Prop
  | .count => x = Number.ofCount samples.length
  | .failureRate =>
    x = Number.ofCount (samples.countP fun s => s.outcome = .failure) /
      Number.ofCount samples.length
  | .least =>
    (∃ s ∈ samples, s.latencyMs = x) ∧
      ∀ s ∈ samples, Number.orderKey x ≤ Number.orderKey s.latencyMs
  | .greatest =>
    (∃ s ∈ samples, s.latencyMs = x) ∧
      ∀ s ∈ samples, Number.orderKey s.latencyMs ≤ Number.orderKey x
  | .average =>
    ∃ l, IsLatencies samples l ∧ x = l.foldl (· + ·) 0.0 / Number.ofCount samples.length
  | .median =>
    ∃ l, IsLatencies samples l ∧ IsAt round l (1 / 2 * ((samples.length - 1 : Nat) : Rat)) x
  | .percentile p =>
    ∃ l, IsLatencies samples l ∧ IsAt round l (share p * ((samples.length - 1 : Nat) : Rat)) x

namespace Metric.Selection.Matches

/-! ## Figures of a selection -/

variable {a b : Selection} {f g : TagFilter} {log log' : List Sample}

/-- Selections of the same samples have the same figures, whatever filter selected them. -/
theorem computeBy_eq (ha : a.Matches f log) (hb : b.Matches g log')
    (hp : (f.wanted log).Perm (g.wanted log')) (ranking : Nat → Float → Place Float)
    (st : Statistic) : st.computeBy ranking a = st.computeBy ranking b := by
  have hcount : a.count = b.count := by rw [ha.count, hb.count, hp.length_eq]
  have hfailures : a.failures = b.failures := by rw [ha.failures, hb.failures, hp.countP_eq]
  have hlatencies : a.latenciesMs = b.latenciesMs :=
    ha.ascending.unique hb.ascending (ha.latencies.trans ((hp.map _).trans hb.latencies.symm))
  cases st with
  | percentile p => simp only [Statistic.computeBy, Selection.percentileBy, hlatencies]
  | average => simp only [Statistic.computeBy, Selection.mean, hlatencies]
  | median => simp only [Statistic.computeBy, Selection.percentileBy, hlatencies]
  | least => simp only [Statistic.computeBy, Selection.min, hlatencies]
  | greatest => simp only [Statistic.computeBy, Selection.max, hlatencies]
  | count => simp only [Statistic.computeBy, hcount]
  | failureRate =>
    show a.failureRate = b.failureRate
    rw [Selection.failureRate, Selection.failureRate, Selection.isEmpty, Selection.isEmpty, hcount,
      hfailures]

/-- A selection is empty exactly if nothing is wanted that was recorded. -/
theorem isEmpty_iff (h : a.Matches f log) : a.isEmpty = true ↔ f.wanted log = [] := by
  rw [Selection.isEmpty, h.count, beq_iff_eq, List.length_eq_zero_iff]

/-- The latencies of a selection are those of the wanted samples, in ascending order. -/
theorem isLatencies (h : a.Matches f log) : IsLatencies (f.wanted log) a.latenciesMs :=
  ⟨h.latencies, h.ascending⟩

/-- The latencies of a selection are those of its samples. -/
theorem mem_latenciesMs (h : a.Matches f log) {x : Float} :
    x ∈ a.latenciesMs ↔ ∃ s ∈ f.wanted log, s.latencyMs = x := by
  rw [h.latencies.mem_iff, List.mem_map]

/-- **Every figure is there, and it says what it is to say.**  If any sample is selected, each of
the statistics has a value, and the value is right. -/
theorem exists_computeBy (h : a.Matches f log) (hne : f.wanted log ≠ []) (round : Rat → Float)
    (st : Statistic) :
    ∃ x, st.computeBy (exactPlace round) a = some x ∧ st.Says round (f.wanted log) x := by
  have hlength : a.latenciesMs.length = (f.wanted log).length := by
    rw [h.latencies.length_eq, List.length_map]
  have hlatencies : a.latenciesMs ≠ [] :=
    List.ne_nil_of_length_pos (hlength ▸ List.length_pos_of_ne_nil hne)
  have hpercentile := exists_isAt hlatencies round
  rw [hlength] at hpercentile
  have hvalue (p : Float) : a.percentileBy (exactPlace round) p =
      valueAt a.latenciesMs (exactPlace round (f.wanted log).length p) := by
    rw [percentileBy, hlength]
  -- Each statistic has a lemma of its own for what it says; here only its place in the selection is
  -- found.
  cases st with
  | percentile p =>
    obtain ⟨x, hx, hsays⟩ := hpercentile p
    exact ⟨x, (hvalue p).trans hx, a.latenciesMs, h.isLatencies, hsays⟩
  | median =>
    obtain ⟨x, hx, hsays⟩ := hpercentile 50.0
    rw [share_fifty] at hsays
    exact ⟨x, (hvalue 50.0).trans hx, a.latenciesMs, h.isLatencies, hsays⟩
  | average =>
    refine ⟨_, if_neg (by simpa using hlatencies), a.latenciesMs, h.isLatencies, ?_⟩
    rw [hlength]
  | least =>
    refine ⟨_, List.head?_eq_some_head hlatencies, h.mem_latenciesMs.1 (List.head_mem _), ?_⟩
    intro s hs
    exact h.ascending.head_le hlatencies (h.mem_latenciesMs.2 ⟨s, hs, rfl⟩)
  | greatest =>
    refine ⟨_, List.getLast?_eq_some_getLast hlatencies,
      h.mem_latenciesMs.1 (List.getLast_mem _), ?_⟩
    intro s hs
    exact h.ascending.le_getLast hlatencies (h.mem_latenciesMs.2 ⟨s, hs, rfl⟩)
  | count => exact ⟨_, rfl, congrArg Number.ofCount h.count⟩
  | failureRate =>
    refine ⟨_, if_neg (mt h.isEmpty_iff.1 hne), ?_⟩
    rw [h.count, h.failures]
    rfl

end Metric.Selection.Matches

end LoadReplay
