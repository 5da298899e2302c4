/-!
# Maps sorted by key

A finite map that keeps its entries in ascending key order, so that listing it, printing it and
comparing it need no further sorting.  The order is part of the type (`SortedMap.ascending`), and
`get?_alter` says what every change does to the look-ups.
-/

namespace LoadReplay

open Std

/-- A map whose entries stand in ascending order of their keys. -/
structure SortedMap (κ ν : Type) [Ord κ] where
  entries : List (κ × ν)
  ascending : entries.Pairwise fun a b => compare a.1 b.1 = .lt
  deriving DecidableEq

namespace SortedMap

variable {κ ν : Type} [Ord κ]

/-- Puts `f` of the present value, or of nothing, at a key of an ascending list. -/
def place (k : κ) (f : Option ν → ν) : List (κ × ν) → List (κ × ν)
  | [] => [(k, f none)]
  | (k', v) :: rest =>
    match compare k k' with
    | .lt => (k, f none) :: (k', v) :: rest
    | .eq => (k', f (some v)) :: rest
    | .gt => (k', v) :: place k f rest

/-- The value at a key of a list of entries. -/
def search (k : κ) : List (κ × ν) → Option ν
  | [] => none
  | (k', v) :: rest => if compare k k' = .eq then some v else search k rest

/-- Nothing is found at a key that comes before all entries. -/
theorem search_eq_none {k : κ} {l : List (κ × ν)} (h : ∀ e ∈ l, compare k e.1 = .lt) :
    search k l = none := by
  induction l with
  | nil => rfl
  | cons e rest ih =>
    have he : compare k e.1 ≠ .eq := by simp [h e List.mem_cons_self]
    rw [search, if_neg he]
    exact ih fun e' he' => h e' (List.mem_cons_of_mem _ he')

/-- Entries of other keys stay as they are. -/
theorem mem_place {k : κ} {f : Option ν → ν} {l : List (κ × ν)} {e : κ × ν}
    (h : e ∈ place k f l) : e.1 = k ∨ ∃ e' ∈ l, e'.1 = e.1 := by
  induction l with
  | nil =>
    simp only [place, List.mem_singleton] at h
    exact .inl (by rw [h])
  | cons hd tl ih =>
    obtain ⟨k', v⟩ := hd
    unfold place at h
    split at h
    · rcases List.mem_cons.1 h with rfl | h
      · exact .inl rfl
      · exact .inr ⟨e, h, rfl⟩
    · rcases List.mem_cons.1 h with rfl | h
      · exact .inr ⟨(k', v), by simp, rfl⟩
      · exact .inr ⟨e, by simp [h], rfl⟩
    · rcases List.mem_cons.1 h with rfl | h
      · exact .inr ⟨(k', v), by simp, rfl⟩
      · rcases ih h with h | ⟨e', he, hk⟩
        · exact .inl h
        · exact .inr ⟨e', by simp [he], hk⟩

variable [TransOrd κ]

/-- The keys stay in ascending order. -/
theorem place_ascending {k : κ} {f : Option ν → ν} {l : List (κ × ν)}
    (h : l.Pairwise fun a b => compare a.1 b.1 = .lt) :
    (place k f l).Pairwise fun a b => compare a.1 b.1 = .lt := by
  induction l with
  | nil => simp [place]
  | cons hd tl ih =>
    obtain ⟨k', v⟩ := hd
    rw [List.pairwise_cons] at h
    unfold place
    split
    · rename_i hc
      refine List.pairwise_cons.2 ⟨fun e he => ?_, List.pairwise_cons.2 h⟩
      rcases List.mem_cons.1 he with rfl | he
      · exact hc
      · exact TransCmp.lt_trans hc (h.1 e he)
    · exact List.pairwise_cons.2 ⟨fun e he => h.1 e he, h.2⟩
    · rename_i hc
      refine List.pairwise_cons.2 ⟨fun e he => ?_, ih h.2⟩
      rcases mem_place he with hk | ⟨e', he', hk⟩
      · rw [hk]
        exact OrientedCmp.gt_iff_lt.1 hc
      · rw [← hk]
        exact h.1 e' he'

/-- The map without entries. -/
def empty : SortedMap κ ν := ⟨[], List.Pairwise.nil⟩

omit [TransOrd κ] in
instance : Inhabited (SortedMap κ ν) := ⟨⟨[], List.Pairwise.nil⟩⟩

/-- Puts `f` of the present value, or of nothing, at a key. -/
def alter (m : SortedMap κ ν) (k : κ) (f : Option ν → ν) : SortedMap κ ν :=
  ⟨place k f m.entries, place_ascending m.ascending⟩

/-- Puts a value at a key, in place of the present one if there is one. -/
def insert (m : SortedMap κ ν) (k : κ) (v : ν) : SortedMap κ ν := m.alter k fun _ => v

/-- The value at a key. -/
def get? (m : SortedMap κ ν) (k : κ) : Option ν := search k m.entries

/-- The keys, ascending. -/
def keys (m : SortedMap κ ν) : List κ := m.entries.map (·.1)

/-- How many keys there are. -/
def size (m : SortedMap κ ν) : Nat := m.entries.length

/-- All pairs put in one after another, so that a later one wins. -/
def ofList (pairs : List (κ × ν)) : SortedMap κ ν :=
  pairs.foldl (fun m p => m.insert p.1 p.2) empty

/-- All entries of the second map put into the first. -/
def merge (m other : SortedMap κ ν) : SortedMap κ ν :=
  other.entries.foldl (fun m p => m.insert p.1 p.2) m

/-! ## Looking up -/

variable [LawfulEqOrd κ] [DecidableEq κ]

/-- At the key the new value is found, and at other keys what was there. -/
theorem search_place (k k' : κ) (f : Option ν → ν) (l : List (κ × ν))
    (h : l.Pairwise fun a b => compare a.1 b.1 = .lt) :
    search k' (place k f l) = if k' = k then some (f (search k l)) else search k' l := by
  -- Along the search for the place; behind it no key is small enough to be `k'`.
  induction l with
  | nil =>
    by_cases hk : k' = k
    · subst hk
      simp [place, search]
    · simp [place, search, hk]
  | cons hd tl ih =>
    obtain ⟨k₀, v⟩ := hd
    rw [List.pairwise_cons] at h
    unfold place
    split
    · rename_i hc
      by_cases hk : k' = k
      · subst hk
        have hn : compare k' k₀ ≠ .eq := by simp [hc]
        have hs : search k' tl = none :=
          search_eq_none fun e he => TransCmp.lt_trans hc (h.1 e he)
        simp [search, hn, hs]
      · simp [search, hk]
    · rename_i hc
      have := LawfulEqCmp.eq_of_compare hc
      subst this
      by_cases hk : k' = k
      · subst hk
        simp [search]
      · simp [search, hk]
    · rename_i hc
      by_cases hk : k' = k
      · subst hk
        simp [search, hc, ih h.2]
      · by_cases h0 : k' = k₀
        · subst h0
          simp [search, hk]
        · simp [search, h0, hk, ih h.2]

omit [TransOrd κ] [DecidableEq κ] in
/-- What is found at a key of an ascending list is what stands there. -/
theorem search_eq_some {k : κ} {v : ν} {l : List (κ × ν)}
    (h : l.Pairwise fun a b => compare a.1 b.1 = .lt) : search k l = some v ↔ (k, v) ∈ l := by
  induction l with
  | nil => simp [search]
  | cons e rest ih =>
    obtain ⟨k', v'⟩ := e
    obtain ⟨hfirst, hrest⟩ := List.pairwise_cons.1 h
    by_cases hk : compare k k' = .eq
    · obtain rfl := LawfulEqCmp.eq_of_compare hk
      have hnone : (k, v) ∉ rest := by
        intro hmem
        have hlt : compare k k = .lt := hfirst _ hmem
        rw [hk] at hlt
        cases hlt
      simp [search, hnone, eq_comm]
    · have hne : k ≠ k' := by
        rintro rfl
        exact hk ReflCmp.compare_self
      simp [search, hk, hne, ih hrest]

omit [TransOrd κ] [DecidableEq κ] in
/-- What is found at a key is an entry. -/
theorem get?_eq_some {m : SortedMap κ ν} {k : κ} {v : ν} :
    m.get? k = some v ↔ (k, v) ∈ m.entries :=
  search_eq_some m.ascending

/-- What was put in at a key is found there, and the other keys are as before. -/
theorem get?_alter (m : SortedMap κ ν) (k k' : κ) (f : Option ν → ν) :
    (m.alter k f).get? k' = if k' = k then some (f (m.get? k)) else m.get? k' :=
  search_place k k' f m.entries m.ascending

/-- A value is found where it was put. -/
theorem get?_insert (m : SortedMap κ ν) (k k' : κ) (v : ν) :
    (m.insert k v).get? k' = if k' = k then some v else m.get? k' := by
  unfold insert
  rw [get?_alter]

/-- What was put in from a list is found before what was there. -/
theorem get?_foldl_insert (k : κ) (l : List (κ × ν)) (m : SortedMap κ ν)
    (h : l.Pairwise fun a b => compare a.1 b.1 = .lt) :
    (l.foldl (fun m p => m.insert p.1 p.2) m).get? k = (search k l).or (m.get? k) := by
  induction l generalizing m with
  | nil => rfl
  | cons e rest ih =>
    obtain ⟨k', v⟩ := e
    obtain ⟨hfirst, hrest⟩ := List.pairwise_cons.1 h
    rw [List.foldl_cons, ih _ hrest, get?_insert, search]
    by_cases hk : k = k'
    · -- The key of the first entry does not come again.
      subst hk
      rw [search_eq_none hfirst, if_pos rfl, if_pos ReflCmp.compare_self]
      rfl
    · have hc : compare k k' ≠ .eq := fun hc => hk (LawfulEqCmp.eq_of_compare hc)
      rw [if_neg hk, if_neg hc]

/-- The second map has precedence. -/
theorem get?_merge (m other : SortedMap κ ν) (k : κ) :
    (m.merge other).get? k = (other.get? k).or (m.get? k) :=
  get?_foldl_insert k other.entries m other.ascending

end SortedMap

end LoadReplay
