import LoadReplay.Proofs.Amounts
import LoadReplay.Proofs.Statistics
import Mathlib.Data.List.GetD
import Mathlib.Tactic.Ring

/-!
# Percentiles of ascending lists

A percentile is the height of a broken line over the ranks of an ascending list.  The line goes
through each value of the list at its rank (`height_natCast`) and rises from each to the next
(`height_mono`), so the percentile lies between the two values beside its rank, and it rises with
the percentage and with the values.  All of this is about exact arithmetic: the reading of
`percentile` over the rationals.

The lists of the program are sorted by a total order of binary64 numbers.  The latencies that were
recorded are finite and not negative, and among such numbers that order is the order of their exact
values, so the exact latencies of a selection are ascending (`Recorded.latencies_ascending`).

Main statement: `percentile_exact`.
-/

namespace LoadReplay.Metric

open Number

/-! ## The broken line -/

/-- The height at a rank of the broken line through the values of a list.  Behind the end of the
list it is zero. -/
def height (v : List Rat) (r : Rat) : Rat :=
  v.getD ⌊r⌋₊ 0 + (v.getD ⌈r⌉₊ 0 - v.getD ⌊r⌋₊ 0) * (r - ⌊r⌋₊)

section Height

variable {v w : List Rat} {r s : Rat} {i j k : Nat}

/-- In ascending order a later place has no lesser value. -/
theorem getD_mono (hv : v.Pairwise (· ≤ ·)) (hij : i ≤ j) (hj : j < v.length) :
    v.getD i 0 ≤ v.getD j 0 := by
  rw [List.getD_eq_getElem _ _ (by omega), List.getD_eq_getElem _ _ hj]
  rcases Nat.lt_or_eq_of_le hij with hlt | rfl
  · exact List.pairwise_iff_getElem.1 hv i j _ hj hlt
  · exact le_refl _

/-- The line goes through the values of the list. -/
theorem height_natCast (v : List Rat) (k : Nat) : height v k = v.getD k 0 := by
  rw [height, Nat.floor_natCast, Nat.ceil_natCast, sub_self, zero_mul, add_zero]

/-- What is beyond the lower place is a part of the way to the next one. -/
theorem beyond_bounds (h0 : 0 ≤ r) : 0 ≤ r - ⌊r⌋₊ ∧ r - ⌊r⌋₊ ≤ 1 := by
  have hle := Nat.floor_le h0
  have hlt := Nat.lt_floor_add_one r
  constructor <;> linarith

/-- Between two neighbours the line stays between them. -/
theorem height_bounds (hv : v.Pairwise (· ≤ ·)) (h0 : 0 ≤ r) (hr : ⌈r⌉₊ < v.length) :
    v.getD ⌊r⌋₊ 0 ≤ height v r ∧ height v r ≤ v.getD ⌈r⌉₊ 0 := by
  have hstep := getD_mono hv (Nat.floor_le_ceil r) hr
  obtain ⟨hlow, hhigh⟩ := beyond_bounds h0
  rw [height]
  constructor <;> nlinarith

/-- The line rises from rank to rank.  Ranks between the same two values are compared by how far
they are beyond the lower one, others by a value that lies between them. -/
theorem height_mono (hv : v.Pairwise (· ≤ ·)) (h0 : 0 ≤ r) (hrs : r ≤ s) (hs : ⌈s⌉₊ < v.length) :
    height v r ≤ height v s := by
  have hfloor : ⌊r⌋₊ ≤ ⌊s⌋₊ := Nat.floor_le_floor hrs
  have hceil : ⌈r⌉₊ ≤ ⌈s⌉₊ := Nat.ceil_le_ceil hrs
  by_cases hseam : ⌈r⌉₊ ≤ ⌊s⌋₊
  · calc
      height v r ≤ v.getD ⌈r⌉₊ 0 := (height_bounds hv h0 (by omega)).2
      _ ≤ v.getD ⌊s⌋₊ 0 := getD_mono hv hseam (Nat.lt_of_le_of_lt (Nat.floor_le_ceil s) hs)
      _ ≤ height v s := (height_bounds hv (h0.trans hrs) hs).1
  · have hr := Nat.ceil_le_floor_add_one r
    have hs' := Nat.ceil_le_floor_add_one s
    have hlow : ⌊r⌋₊ = ⌊s⌋₊ := by omega
    have hhigh : ⌈r⌉₊ = ⌈s⌉₊ := by omega
    have hstep := getD_mono hv (Nat.floor_le_ceil s) hs
    rw [height, height, hlow, hhigh]
    nlinarith

/-- The line rises with the values. -/
theorem height_le_height (h : List.Forall₂ (· ≤ ·) v w) (h0 : 0 ≤ r) :
    height v r ≤ height w r := by
  have hle (k : Nat) : v.getD k 0 ≤ w.getD k 0 := by
    rcases Nat.lt_or_ge k v.length with hk | hk
    · have hk' : k < w.length := by rwa [← h.length_eq]
      rw [List.getD_eq_getElem _ _ hk, List.getD_eq_getElem _ _ hk']
      exact h.get hk hk'
    · have hk' : w.length ≤ k := by rwa [← h.length_eq]
      rw [List.getD_eq_default _ _ hk, List.getD_eq_default _ _ hk']
  obtain ⟨hlow, hhigh⟩ := beyond_bounds h0
  have hfloor := hle ⌊r⌋₊
  have hceil := hle ⌈r⌉₊
  rw [height, height]
  nlinarith

end Height

/-! ## Percentiles -/

section Percentile

variable {v w : List Rat} {p q x y : Rat} {n : Nat}

/-- A greater percentile has no lesser rank. -/
theorem rank_mono (h : p ≤ q) : rank n p ≤ rank n q := by
  rw [rank_eq, rank_eq, part, part]
  gcongr

/-- Neither the short cut at a whole rank nor the bounds of the whole list change the height. -/
theorem percentile_eq (hne : v ≠ []) (hv : v.Pairwise (· ≤ ·)) (p : Rat) :
    percentile v p = some (height v (rank v.length p)) := by
  have hpos := List.length_pos_of_ne_nil hne
  have hceil := ceil_rank_lt hpos p
  have hfloor := Nat.lt_of_le_of_lt (Nat.floor_le_ceil (rank v.length p)) hceil
  have h0 := (rank_bounds v.length p).1
  have hlow := List.getElem?_eq_getElem hfloor
  have hhigh := List.getElem?_eq_getElem hceil
  rw [← List.getD_eq_getElem v 0] at hlow hhigh
  rw [percentile, valueAt, place_eq, List.head?_eq_some_head hne, List.getLast?_eq_some_getLast hne]
  simp only [hlow, hhigh, Option.bind_eq_bind, Option.bind_some]
  split
  · next hwhole =>
    rw [height, ← hwhole, sub_self, zero_mul, add_zero]
    rfl
  · obtain ⟨hleast, hgreatest⟩ := height_bounds hv h0 hceil
    have hfirst : v.head hne ≤ height v (rank v.length p) := by
      have hmono := getD_mono hv (Nat.zero_le _) hfloor
      rw [List.getD_eq_getElem v 0 hpos, ← List.head_eq_getElem hne] at hmono
      exact hmono.trans hleast
    have hlast : height v (rank v.length p) ≤ v.getLast hne := by
      have hend := Nat.sub_one_lt_of_lt hpos
      have hmono := getD_mono hv (Nat.le_sub_one_of_lt hceil) hend
      rw [List.getD_eq_getElem v 0 hend, ← List.getLast_eq_getElem hne] at hmono
      exact hgreatest.trans hmono
    show some (clamp (v.head hne) (v.getLast hne) (height v (rank v.length p))) = _
    rw [clamp_eq _ _ _ (hfirst.trans hlast), min_eq_left hlast, max_eq_right hfirst]

end Percentile

/-! ## The levels of a list -/

/-- The figures of a series that lie between its least and its greatest latency. -/
structure Levels (α : Type) where
  least : Option α
  p50 : Option α
  p90 : Option α
  p95 : Option α
  p99 : Option α
  greatest : Option α

/-- The levels of an ascending list. -/
def levels {α : Type} [Scalar α] (sorted : List α) : Levels α :=
  { least := sorted.head?
    p50 := percentile sorted (Scalar.ofNat 50)
    p90 := percentile sorted (Scalar.ofNat 90)
    p95 := percentile sorted (Scalar.ofNat 95)
    p99 := percentile sorted (Scalar.ofNat 99)
    greatest := sorted.getLast? }

/-- The levels of the latencies are the figures of the report. -/
theorem levels_latenciesMs (sel : Selection) :
    levels sel.latenciesMs =
      ⟨sel.stats.minMs, sel.stats.p50Ms, sel.stats.p90Ms, sel.stats.p95Ms, sel.stats.p99Ms,
        sel.stats.maxMs⟩ := rfl

/-- Whether all levels are there, each no less than the one before. -/
def Levels.Ascending (l : Levels Rat) : Prop :=
  ∃ least p50 p90 p95 p99 greatest,
    l = ⟨some least, some p50, some p90, some p95, some p99, some greatest⟩ ∧
      least ≤ p50 ∧ p50 ≤ p90 ∧ p90 ≤ p95 ∧ p95 ≤ p99 ∧ p99 ≤ greatest

/-- Whether a number is percentile `p` of an ascending list. -/
structure IsPercentile (v : List Rat) (p x : Rat) : Prop where
  whole : ∀ k : Nat, part p * ((v.length - 1 : Nat) : Rat) = k → v[k]? = some x
  least : p ≤ 0 → v.head? = some x
  greatest : 100 ≤ p → v.getLast? = some x
  only : ∀ y, v = [y] → x = y
  beside : ∃ low high, v[(place v.length p).below]? = some low ∧
    v[(place v.length p).above]? = some high ∧ low ≤ x ∧ x ≤ high ∧
    x = low + (high - low) * (place v.length p).beyond

section Main

variable {v w : List Rat} {p q x y : Rat}

/-- From zero downward the part is nothing, -/
theorem part_of_nonpos (h : p ≤ 0) : part p = 0 := by
  rw [part, max_eq_left ((min_le_left p 100).trans h), zero_div]

/-- and from a hundred upward it is everything. -/
theorem part_of_le (h : 100 ≤ p) : part p = 1 := by
  rw [part, min_eq_right h]
  norm_num

/-- The height at the rank of a percentile is that percentile. -/
theorem isPercentile_height (hne : v ≠ []) (hv : v.Pairwise (· ≤ ·)) (p : Rat) :
    IsPercentile v p (height v (rank v.length p)) := by
  have hpos := List.length_pos_of_ne_nil hne
  have hceil := ceil_rank_lt hpos p
  have hfloor := Nat.lt_of_le_of_lt (Nat.floor_le_ceil (rank v.length p)) hceil
  have hwhole (k : Nat) (hk : part p * ((v.length - 1 : Nat) : Rat) = k) :
      v[k]? = some (height v (rank v.length p)) := by
    rw [← rank_eq] at hk
    have hlt : k < v.length := by rwa [hk, Nat.ceil_natCast] at hceil
    rw [hk, height_natCast, List.getD_eq_getElem _ _ hlt, List.getElem?_eq_getElem hlt]
  refine ⟨hwhole, ?_, ?_, ?_, ?_⟩
  · intro hp
    rw [List.head?_eq_getElem?]
    exact hwhole 0 (by rw [part_of_nonpos hp, zero_mul, Nat.cast_zero])
  · intro hp
    rw [List.getLast?_eq_getElem?]
    exact hwhole (v.length - 1) (by rw [part_of_le hp, one_mul])
  · rintro y rfl
    exact (Option.some.inj (hwhole 0 (mul_zero _))).symm
  · obtain ⟨hleast, hgreatest⟩ := height_bounds hv (rank_bounds v.length p).1 hceil
    rw [place_eq]
    refine ⟨_, _, ?_, ?_, hleast, hgreatest, rfl⟩
    · rw [List.getD_eq_getElem _ _ hfloor, List.getElem?_eq_getElem hfloor]
    · rw [List.getD_eq_getElem _ _ hceil, List.getElem?_eq_getElem hceil]

/-- A greater percentile is no less. -/
theorem percentile_mono (hne : v ≠ []) (hv : v.Pairwise (· ≤ ·)) (hpq : p ≤ q)
    (hx : percentile v p = some x) (hy : percentile v q = some y) : x ≤ y := by
  rw [percentile_eq hne hv] at hx hy
  obtain rfl := Option.some.inj hx
  obtain rfl := Option.some.inj hy
  exact height_mono hv (rank_bounds _ _).1 (rank_mono hpq)
    (ceil_rank_lt (List.length_pos_of_ne_nil hne) q)

/-- Greater samples have no lesser percentiles. -/
theorem percentile_le_percentile (hne : v ≠ []) (hv : v.Pairwise (· ≤ ·))
    (hw : w.Pairwise (· ≤ ·)) (hvw : List.Forall₂ (· ≤ ·) v w) (hx : percentile v p = some x)
    (hy : percentile w p = some y) : x ≤ y := by
  have hlength := hvw.length_eq
  have hne' : w ≠ [] := by
    rintro rfl
    exact hne (List.length_eq_zero_iff.1 hlength)
  rw [percentile_eq hne hv] at hx
  rw [percentile_eq hne' hw, ← hlength] at hy
  obtain rfl := Option.some.inj hx
  obtain rfl := Option.some.inj hy
  exact height_le_height hvw (rank_bounds _ _).1

/-- The figures of one report are in ascending order. -/
theorem levels_ascending (hne : v ≠ []) (hv : v.Pairwise (· ≤ ·)) : (levels v).Ascending := by
  have hleast := (isPercentile_height hne hv 0).least (le_refl 0)
  have hgreatest := (isPercentile_height hne hv 100).greatest (le_refl 100)
  have hpercentile := percentile_eq hne hv
  have hmono (p q : Rat) (hpq : p ≤ q) :
      height v (rank v.length p) ≤ height v (rank v.length q) :=
    percentile_mono hne hv hpq (hpercentile p) (hpercentile q)
  refine ⟨_, _, _, _, _, _, ?_, hmono 0 50 (by norm_num), hmono 50 90 (by norm_num),
    hmono 90 95 (by norm_num), hmono 95 99 (by norm_num), hmono 99 100 (by norm_num)⟩
  rw [levels, hleast, hgreatest, hpercentile, hpercentile, hpercentile, hpercentile]
  rfl

end Main

/-! ## The levels of what was recorded -/

section Recorded

variable {log : List Sample} {r : Recorder} {success : Option Bool} {series : List Series}

/-- Every latency of a selection is that of a sample. -/
theorem Recorded.latency_of_sample (h : Recorded log r)
    (hseries : ∀ s ∈ series, s ∈ r.series.map (·.2)) :
    ∀ x ∈ (Selection.ofSeries success series).latenciesMs, ∃ s ∈ log, x = s.latencyMs := by
  intro x hx
  have hkept : x ∈ (series.foldl (Selection.add success) .empty).latenciesMs :=
    List.mem_mergeSort.1 hx
  rw [(foldl_add success series .empty).2.2.1] at hkept
  obtain ⟨reading, hreading, rfl⟩ := List.mem_map.1 hkept
  obtain ⟨s, hs, hmem⟩ := List.mem_flatMap.1 hreading
  obtain ⟨e, he, rfl⟩ := List.mem_map.1 (hseries s hs)
  have hread := (List.mem_filter.1 hmem).1
  rw [(h.represents.holds e he).readings] at hread
  obtain ⟨sample, hsample, rfl⟩ := List.mem_map.1 hread
  exact ⟨sample, (List.mem_filter.1 hsample).1, rfl⟩

/-- The exact latencies of a selection are ascending. -/
theorem Recorded.latencies_ascending (h : Recorded log r)
    (hseries : ∀ s ∈ series, s ∈ r.series.map (·.2)) :
    ((Selection.ofSeries success series).latenciesMs.map value).Pairwise (· ≤ ·) := by
  have hamount : ∀ x ∈ (Selection.ofSeries success series).latenciesMs, IsAmount x := by
    intro x hx
    obtain ⟨s, -, rfl⟩ := h.latency_of_sample hseries x hx
    exact isAmount_toMillis s.latency
  rw [List.pairwise_map]
  have hsorted : Ascending (Selection.ofSeries success series).latenciesMs := ascending_sorted _
  exact hsorted.imp_of_mem fun hx hy hle => (hamount _ hx).value_le (hamount _ hy) hle

end Recorded

/-- **Percentiles behave as percentiles**, in exact arithmetic.  The places that are looked up are
in the list, and there is a percentile of every list that is not empty.  It is the value of its rank
where that is whole, so the first and the last value are at the ends; elsewhere it lies between the
two values beside its rank, on the line between them, so that the bounds of the whole list change
nothing.  It rises with the percentage and with the values.  So the levels of the figures that are
made of any series of a recorder are ascending. -/
theorem percentile_exact :
    (∀ (v : List Rat) (p : Rat), v ≠ [] → v.Pairwise (· ≤ ·) →
      (place v.length p).below < v.length ∧ (place v.length p).above < v.length ∧
        ∃ x, percentile v p = some x ∧ IsPercentile v p x ∧
          (∀ q y, p ≤ q → percentile v q = some y → x ≤ y) ∧
          (∀ w y, List.Forall₂ (· ≤ ·) v w → w.Pairwise (· ≤ ·) → percentile w p = some y →
            x ≤ y) ∧
          (levels v).Ascending) ∧
      ∀ (log : List Sample) (r : Recorder) (success : Option Bool) (series : List Series),
        Recorded log r → (∀ s ∈ series, s ∈ r.series.map (·.2)) →
        (Selection.ofSeries success series).latenciesMs ≠ [] →
        (levels ((Selection.ofSeries success series).latenciesMs.map value)).Ascending := by
  refine ⟨fun v p hne hv => ?_, fun log r success series h hseries hne => ?_⟩
  · obtain ⟨hbelow, habove⟩ := place_lt (List.length_pos_of_ne_nil hne) p
    have hx := percentile_eq hne hv p
    refine ⟨hbelow, habove, _, hx, isPercentile_height hne hv p, ?_, ?_, levels_ascending hne hv⟩
    · exact fun q y hpq hy => percentile_mono hne hv hpq hx hy
    · exact fun w y hvw hw hy => percentile_le_percentile hne hv hw hvw hx hy
  · exact levels_ascending (mt List.map_eq_nil_iff.1 hne) (h.latencies_ascending hseries)

/-- The middle of four values lies half way between the second and the third, and two samples that
were recorded have ascending levels. -/
theorem percentile_exact_middle :
    let v : List Rat := [1, 2, 3, 4]
    let r := (Recorder.empty.record ⟨.empty, .zero, .millis 3, .success, some 200⟩).record
      ⟨.empty, .millis 1, .millis 2, .failure, none⟩
    v ≠ [] ∧ v.Pairwise (· ≤ ·) ∧ percentile v 50 = some (5 / 2) ∧
      (∀ y, percentile v 95 = some y → 5 / 2 ≤ y) ∧ (levels v).Ascending ∧
      (levels
        ((Selection.ofSeries none (r.series.map (·.2))).latenciesMs.map value)).Ascending := by
  intro v r
  have hne : v ≠ [] := List.cons_ne_nil _ _
  have hv : v.Pairwise (· ≤ ·) := by decide +kernel
  have hmiddle : percentile v 50 = some (5 / 2) := by decide +kernel
  obtain ⟨-, -, x, hx, -, hmono, -, hlevels⟩ := percentile_exact.1 v 50 hne hv
  obtain rfl := Option.some.inj (hx.symm.trans hmiddle)
  have hselected : (Selection.ofSeries none (r.series.map (·.2))).latenciesMs.length = 2 :=
    (List.length_mergeSort _).trans (by decide +kernel)
  have hrecorded := percentile_exact.2 _ r none _ ((Recorded.empty.record _).record _)
    (fun _ hs => hs) (List.ne_nil_of_length_pos (hselected ▸ Nat.two_pos))
  exact ⟨hne, hv, hx, fun y hy => hmono 95 y (by norm_num) hy, hlevels, hrecorded⟩

end LoadReplay.Metric
