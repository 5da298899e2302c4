import LoadReplay.Metric.Recorder
import Mathlib.Data.List.Perm.Basic

/-!
# Histograms

A table of counts is the histogram of a list if it has an entry for every item of the list, and for
no other, that says how often the item occurs (`IsHistogram`).  The list may come in any order, and
it determines the table.
-/

namespace LoadReplay

/-! ## Sorted maps with the same look-ups -/

namespace SortedMap

open Std

variable {κ ν : Type} [Ord κ] [TransOrd κ]

/-- The first entry is found at its key. -/
private theorem search_head (k : κ) (v : ν) (l : List (κ × ν)) :
    search k ((k, v) :: l) = some v := by
  rw [search, if_pos ReflCmp.compare_self]

/-- An ascending list of entries does not have a key that is less than its first one. -/
private theorem search_eq_none_of_lt {k k' : κ} {v : ν} {l : List (κ × ν)}
    (hl : ((k', v) :: l).Pairwise fun a b => compare a.1 b.1 = .lt) (h : compare k k' = .lt) :
    search k ((k', v) :: l) = none := by
  refine search_eq_none fun e he => ?_
  rcases List.mem_cons.1 he with rfl | he
  · exact h
  · exact TransCmp.lt_trans h ((List.pairwise_cons.1 hl).1 e he)

variable [LawfulEqOrd κ]

/-- Entries in ascending order are told by what is found at each key. -/
private theorem entries_eq {l l' : List (κ × ν)}
    (hl : l.Pairwise fun a b => compare a.1 b.1 = .lt)
    (hl' : l'.Pairwise fun a b => compare a.1 b.1 = .lt) (h : ∀ k, search k l = search k l') :
    l = l' := by
  induction l generalizing l' with
  | nil =>
    cases l' with
    | nil => rfl
    | cons e rest =>
      obtain ⟨k, v⟩ := e
      have := h k
      rw [search_head, search] at this
      simp at this
  | cons e rest ih =>
    obtain ⟨k, v⟩ := e
    cases l' with
    | nil =>
      have := h k
      rw [search_head, search] at this
      simp at this
    | cons e' rest' =>
      obtain ⟨k', v'⟩ := e'
      have hk := h k
      have hk' := h k'
      rw [search_head] at hk hk'
      -- The smaller one of two different first keys would be missing on the other side.
      cases hc : compare k k' with
      | lt =>
        rw [search_eq_none_of_lt hl' hc] at hk
        simp at hk
      | gt =>
        rw [search_eq_none_of_lt hl (OrientedCmp.gt_iff_lt.1 hc)] at hk'
        simp at hk'
      | eq =>
        obtain rfl := LawfulEqCmp.eq_of_compare hc
        rw [search_head, Option.some.injEq] at hk
        subst hk
        congr 1
        refine ih (List.pairwise_cons.1 hl).2 (List.pairwise_cons.1 hl').2 fun j => ?_
        by_cases hj : compare j k = .eq
        · obtain rfl := LawfulEqCmp.eq_of_compare hj
          rw [search_eq_none (List.pairwise_cons.1 hl).1,
            search_eq_none (List.pairwise_cons.1 hl').1]
        · have := h j
          rwa [search, search, if_neg hj, if_neg hj] at this

/-- Two maps are equal if every look-up gives the same. -/
theorem ext_get? {m m' : SortedMap κ ν} (h : ∀ k, m.get? k = m'.get? k) : m = m' := by
  cases m with
  | mk l hl =>
    cases m' with
    | mk l' hl' =>
      obtain rfl : l = l' := entries_eq hl hl' h
      rfl

end SortedMap

/-! ## Counting -/

namespace Metric

/-- Whether a table says how often each item of a list occurs. -/
def IsHistogram (counts : SortedMap Nat Nat) (items : List Nat) : Prop :=
  ∀ k, counts.get? k = if k ∈ items then some (items.count k) else none

namespace IsHistogram

variable {counts more : SortedMap Nat Nat} {items items' : List Nat}

theorem empty : IsHistogram .empty [] := fun _ => rfl

/-- The order of the items does not matter. -/
theorem perm (h : IsHistogram counts items) (hp : items.Perm items') :
    IsHistogram counts items' := by
  intro k
  rw [h k, hp.count_eq k]
  simp only [hp.mem_iff]

/-- There is only one histogram. -/
theorem unique (h : IsHistogram counts items) (h' : IsHistogram more items) : counts = more :=
  SortedMap.ext_get? fun k => by rw [h k, h' k]

/-- The count of a number is found at it. -/
theorem getD (h : IsHistogram counts items) (k : Nat) :
    (counts.get? k).getD 0 = items.count k := by
  rw [h k]
  split
  · rfl
  · rename_i hk
    exact (List.count_eq_zero.2 hk).symm

/-- One more occurrence. -/
theorem tally (h : IsHistogram counts items) (k : Nat) :
    IsHistogram (Metric.tally counts k 1) (items ++ [k]) := by
  intro j
  rw [Metric.tally, SortedMap.get?_alter, h.getD k]
  by_cases hj : j = k
  · subst hj
    simp
  · rw [if_neg hj, h j, List.count_append, List.count_singleton]
    simp [hj, Ne.symm hj]

end IsHistogram

/-- All entries of one table added to another. -/
theorem get?_foldl_tally (entries : List (Nat × Nat))
    (hasc : entries.Pairwise fun a b => compare a.1 b.1 = .lt) (counts : SortedMap Nat Nat)
    (k : Nat) :
    (entries.foldl (fun m e => tally m e.1 e.2) counts).get? k =
      match SortedMap.search k entries with
      | none => counts.get? k
      | some n => some ((counts.get? k).getD 0 + n) := by
  induction entries generalizing counts with
  | nil => rfl
  | cons e rest ih =>
    obtain ⟨j, n⟩ := e
    obtain ⟨hj, hrest⟩ := List.pairwise_cons.1 hasc
    rw [List.foldl_cons, ih hrest, tally, SortedMap.get?_alter, SortedMap.search]
    by_cases hk : k = j
    · subst hk
      rw [SortedMap.search_eq_none hj, if_pos rfl, if_pos (by simp)]
    · rw [if_neg hk, if_neg (by simpa using hk)]

/-- The entries of the histogram of one list added to the histogram of another. -/
theorem IsHistogram.add {counts more : SortedMap Nat Nat} {items items' : List Nat}
    (h : IsHistogram counts items) (h' : IsHistogram more items') :
    IsHistogram (more.entries.foldl (fun m e => Metric.tally m e.1 e.2) counts)
      (items ++ items') := by
  intro k
  rw [get?_foldl_tally _ more.ascending]
  have hk : SortedMap.search k more.entries = _ := h' k
  rw [hk, h.getD k, h k, List.count_append]
  by_cases hm : k ∈ items'
  · simp [hm]
  · simp [hm, List.count_eq_zero.2 hm]

end Metric

end LoadReplay
