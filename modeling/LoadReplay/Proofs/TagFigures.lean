import LoadReplay.Proofs.FlatSelection
import Mathlib.Algebra.BigOperators.Group.List.Basic
import Mathlib.Algebra.GroupWithZero.Nat

/-!
# The figures of each tag

The figures of all tags come from one pass over the series, in which a series is added to the
selection of every tag that it has.  They are the figures of the samples that carry the tag, taken
straight from the log, and the figures of the selection by that tag (`Recorded.byTag_agrees`).

## Shape of the proof

What the pass keeps at a tag depends on nothing but the series that have the tag
(`get?_foldl_fanOut`), so it is what a scan for that one tag picks out (`byTag_eq`).  Series that
are picked out by their tag sets represent the samples with these tag sets
(`Represents.filter`), so that all figures of a recorder are instances of one statement about the
figures of a whole log (`Represents.total`).  A key that all samples carry splits the log by its
values, and what is counted in the parts adds up to what is counted in the log
(`sum_countP_parts`).
-/

namespace LoadReplay

open Std

/-! ## Parts of a list -/

section Parts

variable {α β : Type} [DecidableEq β]

/-- Of different keys only one is that of a sample. -/
private theorem sum_single {keys : List β} (hd : keys.Nodup) {b : β} (hb : b ∈ keys) (n : Nat) :
    (keys.map fun k => if b = k then n else 0).sum = n := by
  induction keys with
  | nil => simp at hb
  | cons k rest ih =>
    obtain ⟨hk, hd⟩ := List.nodup_cons.1 hd
    by_cases hbk : b = k
    · subst hbk
      have hnone : (rest.map fun k => if b = k then n else 0).sum = 0 := by
        apply List.sum_eq_zero
        intro m hm
        obtain ⟨k, hk', rfl⟩ := List.mem_map.1 hm
        rw [if_neg]
        rintro rfl
        exact hk hk'
      simp [hnone]
    · simp [hbk, ih hd ((List.mem_cons.1 hb).resolve_left hbk)]

/-- What is counted in the parts of a list is counted in the whole, if each item belongs to one of
the parts. -/
theorem sum_countP_parts {keys : List β} (hd : keys.Nodup) (key : α → β) (p : α → Bool)
    {l : List α} (hmem : ∀ a ∈ l, key a ∈ keys) :
    (keys.map fun k => (l.filter fun a => key a = k).countP p).sum = l.countP p := by
  induction l with
  | nil => simp
  | cons a rest ih =>
    have hhead := sum_single hd (hmem a List.mem_cons_self) (p a).toNat
    have hrest := ih fun b hb => hmem b (List.mem_cons_of_mem _ hb)
    have hsplit (k : β) : ((a :: rest).filter fun b => key b = k).countP p =
        (rest.filter fun b => key b = k).countP p + if key a = k then (p a).toNat else 0 := by
      by_cases hk : key a = k
      · cases hp : p a <;> simp [hk, hp]
      · simp [hk]
    simp only [hsplit, List.sum_map_add, hrest, hhead, List.countP_cons]
    cases p a <;> simp

end Parts

/-! ## Tags and those who carry them -/

/-- A set has the tags that it lists. -/
theorem TagSet.mem_tags {tags : TagSet} {t : Tag} : t ∈ tags.tags ↔ tags.holds t := by
  obtain ⟨key, value⟩ := t
  simp [TagSet.tags, TagSet.holds, SortedMap.get?_eq_some]

/-- A set lists each of its tags once. -/
theorem TagSet.nodup_tags (tags : TagSet) : tags.tags.Nodup := by
  rw [TagSet.tags, List.Nodup, List.pairwise_map]
  refine tags.ascending.imp fun {a b} hlt htag => ?_
  have hkey : a.1 = b.1 := congrArg Tag.key htag
  have heq : compare b.1 b.1 = .eq := ReflCmp.compare_self
  rw [hkey, heq] at hlt
  cases hlt

/-- When some different keys were changed in the same way, each of them was changed once. -/
theorem SortedMap.get?_foldl_alter {κ ν : Type} [Ord κ] [TransOrd κ] [LawfulEqOrd κ]
    [DecidableEq κ] (m : SortedMap κ ν) (f : Option ν → ν) {keys : List κ} (hd : keys.Nodup)
    (k : κ) :
    (keys.foldl (fun m k => m.alter k f) m).get? k =
      if k ∈ keys then some (f (m.get? k)) else m.get? k := by
  induction keys generalizing m with
  | nil => simp
  | cons key rest ih =>
    obtain ⟨hkey, hd⟩ := List.nodup_cons.1 hd
    rw [List.foldl_cons, ih (m.alter key f) hd, get?_alter]
    by_cases hk : k = key
    · subst hk
      simp [hkey]
    · simp [hk]

/-- Whether a sample carries a tag. -/
def Sample.Carries (s : Sample) (t : Tag) : Prop := s.tags.get? t.key = some t.value

instance (t : Tag) : DecidablePred fun s : Sample => s.Carries t := fun s =>
  inferInstanceAs (Decidable (s.tags.get? t.key = some t.value))

/-- A sample carries the tags of its set, -/
theorem Sample.carries_iff {s : Sample} {t : Tag} : s.Carries t ↔ s.tags.holds t := by
  simp [Sample.Carries, TagSet.holds]

/-- The value of a sample at a key, as a tag. -/
def Sample.tagAt (s : Sample) (key : String) : Tag := ⟨key, (s.tags.get? key).getD ""⟩

/-- and of each key at most one. -/
theorem Sample.carries_iff_tagAt {s : Sample} {t : Tag} (hs : (s.tags.get? t.key).isSome) :
    s.Carries t ↔ s.tagAt t.key = t := by
  obtain ⟨key, value⟩ := t
  obtain ⟨v, hv⟩ := Option.isSome_iff_exists.1 hs
  have hvalue : s.tags.get? key = some v := hv
  simp [Sample.Carries, tagAt, hvalue]

namespace Metric

/-! ## The figures of a log -/

/-- What a whole log of samples says. -/
def flat (log : List Sample) : Selection :=
  Selection.sorted
    { successes := log.countP fun s => s.outcome = .success
      failures := log.countP fun s => s.outcome = .failure
      latenciesMs := log.map (·.latencyMs)
      timestamps := log.map (·.sentAt)
      statuses := (log.filterMap (·.status)).foldl (fun counts k => tally counts k 1) .empty }

/-- A histogram counts more items as they come. -/
theorem isHistogram_foldl {counts : SortedMap Nat Nat} {items : List Nat}
    (h : IsHistogram counts items) (more : List Nat) :
    IsHistogram (more.foldl (fun counts k => tally counts k 1) counts) (items ++ more) := by
  induction more generalizing counts items with
  | nil => simpa using h
  | cons k rest ih => simpa using ih (h.tally k)

/-- Without a filter every sample is wanted. -/
theorem wanted_any (log : List Sample) : TagFilter.any.wanted log = log := by
  simp [TagFilter.wanted, TagFilter.Wants, TagFilter.any]

/-- The figures of the flat log are those of the log. -/
theorem flat_matches (log : List Sample) : (flat log).Matches .any log where
  count := by
    have hlength := List.length_eq_countP_add_countP (fun s : Sample => s.outcome = .success)
      (l := log)
    have hfailures : (log.countP fun s => ¬s.outcome = .success) =
        log.countP fun s => s.outcome = .failure := by
      apply List.countP_congr
      intro s _
      cases s.outcome <;> simp
    simp only [decide_eq_true_eq] at hlength
    rw [wanted_any, hlength, hfailures]
    rfl
  failures := by
    rw [wanted_any]
    rfl
  latencies := by
    rw [wanted_any]
    exact List.mergeSort_perm _ _
  ascending := ascending_sorted _
  timestamps := by
    rw [wanted_any]
    exact ⟨log, rfl, .refl log, fun _ => rfl⟩
  statuses := by
    intro _
    rw [wanted_any]
    exact isHistogram_foldl .empty _
  noStatuses := by
    intro h
    exact absurd (fun t ht => by simp [TagFilter.any] at ht) h

/-- The figures of all samples are those of the whole log. -/
theorem Represents.total {series : List (TagSet × Series)} {log : List Sample}
    (h : Represents series log) : (Recorder.mk series).total = (flat log).stats :=
  ((h.selection_matches .any).sameFigures (flat_matches log) (.refl log)).stats

/-- Series that are picked out by their tag sets represent the samples with these tag sets. -/
theorem Represents.filter {series : List (TagSet × Series)} {log : List Sample}
    (h : Represents series log) (p : TagSet → Bool) :
    Represents (series.filter fun e => p e.1) (log.filter fun s => p s.tags) where
  distinct := h.distinct.sublist (List.filter_sublist.map _)
  covers := by
    intro s hs
    obtain ⟨hs, hp⟩ := List.mem_filter.1 hs
    obtain ⟨e, he, htags⟩ := List.mem_map.1 (h.covers s hs)
    exact List.mem_map.2 ⟨e, List.mem_filter.2 ⟨he, by rwa [htags]⟩, htags⟩
  holds := by
    intro e he
    obtain ⟨he, hp⟩ := List.mem_filter.1 he
    have hsame : ((log.filter fun s => p s.tags).filter fun s => s.tags = e.1) =
        log.filter fun s => s.tags = e.1 := by
      rw [List.filter_filter]
      apply List.filter_congr
      intro s _
      by_cases htags : s.tags = e.1
      · simp [htags, hp]
      · simp [htags]
    rw [hsame]
    exact h.holds e he

/-! ## One pass over all series -/

/-- The series that count for a tag, among all series. -/
def carriers (series : List (TagSet × Series)) (t : Tag) : List Series :=
  (series.filter fun e => TagSet.holds e.1 t).map (·.2)

/-- A series is among those with a tag if its set has it. -/
theorem carriers_cons (e : TagSet × Series) (rest : List (TagSet × Series)) (t : Tag) :
    carriers (e :: rest) t =
      if TagSet.holds e.1 t then e.2 :: carriers rest t else carriers rest t := by
  by_cases he : TagSet.holds e.1 t <;> simp [carriers, he]

/-- A series is added to the selection of each of its tags, and to no other one. -/
theorem get?_fanOut (rows : SortedMap Tag Selection) (e : TagSet × Series) (t : Tag) :
    (Recorder.fanOut rows e).get? t =
      if TagSet.holds e.1 t then some (((rows.get? t).getD .empty).add none e.2)
      else rows.get? t := by
  have hmem : t ∈ TagSet.tags e.1 ↔ TagSet.holds e.1 t = true := TagSet.mem_tags
  rw [Recorder.fanOut, SortedMap.get?_foldl_alter rows _ (TagSet.nodup_tags e.1) t]
  simp only [hmem]

/-- After a pass over some series, what is kept at a tag has grown by the series that count for it,
in their order. -/
theorem get?_foldl_fanOut (series : List (TagSet × Series)) (rows : SortedMap Tag Selection)
    (t : Tag) :
    (series.foldl Recorder.fanOut rows).get? t =
      if carriers series t = [] then rows.get? t
      else some ((carriers series t).foldl (Selection.add none) ((rows.get? t).getD .empty)) := by
  induction series generalizing rows with
  | nil => rfl
  | cons e rest ih =>
    rw [List.foldl_cons, ih, get?_fanOut, carriers_cons]
    by_cases he : TagSet.holds e.1 t
    · -- The first series begins the selection or adds to it; the others go on from there.
      simp only [he, if_true, List.foldl_cons, reduceCtorEq, if_false, Option.getD_some]
      by_cases hrest : carriers rest t = []
      · rw [if_pos hrest, hrest, List.foldl_nil]
      · rw [if_neg hrest]
    · simp only [he, if_false, Bool.false_eq_true]

/-! ## The figures of each tag -/

/-- All tags that have figures. -/
def Recorder.tags (r : Recorder) : List Tag := r.byTag.map (·.1)

/-- The figures of a tag, from the series that count for it alone. -/
def Recorder.figuresOf (r : Recorder) (t : Tag) : Stats :=
  (Selection.ofSeries none (carriers r.series t)).stats

/-- What the pass over all series gathers at a tag is the selection of the series that count for
it. -/
theorem mem_entries_fanOut {r : Recorder} {t : Tag} {sel : Selection} :
    (t, sel) ∈ (r.series.foldl Recorder.fanOut .empty).entries ↔
      carriers r.series t ≠ [] ∧ (carriers r.series t).foldl (Selection.add none) .empty = sel := by
  have hnone : (SortedMap.empty : SortedMap Tag Selection).get? t = none := rfl
  rw [← SortedMap.get?_eq_some, get?_foldl_fanOut, hnone, Option.getD_none]
  by_cases hcarriers : carriers r.series t = []
  · simp [hcarriers]
  · rw [if_neg hcarriers, Option.some_inj]
    exact (and_iff_right hcarriers).symm

/-- A tag has figures if some series counts for it. -/
theorem mem_tags_iff {r : Recorder} {t : Tag} :
    t ∈ r.tags ↔ ∃ e ∈ r.series, TagSet.holds e.1 t := by
  have hcarriers : carriers r.series t ≠ [] ↔ ∃ e ∈ r.series, TagSet.holds e.1 t := by
    rw [Ne, carriers, List.map_eq_nil_iff, List.filter_eq_nil_iff]
    push Not
    rfl
  rw [← hcarriers, Recorder.tags, Recorder.byTag, List.map_map, List.mem_map]
  constructor
  · rintro ⟨⟨t, sel⟩, he, rfl⟩
    exact (mem_entries_fanOut.1 he).1
  · intro h
    exact ⟨(t, _), mem_entries_fanOut.2 ⟨h, rfl⟩, rfl⟩

/-- **One pass gives what one scan for each tag gives.**  The figures that the tags get together are
those that each gets alone. -/
theorem byTag_eq (r : Recorder) : r.byTag = r.tags.map fun t => (t, r.figuresOf t) := by
  rw [Recorder.tags, Recorder.byTag, List.map_map, List.map_map]
  apply List.map_congr_left
  rintro ⟨t, sel⟩ he
  obtain ⟨-, rfl⟩ := mem_entries_fanOut.1 he
  rfl

/-- There is a row for each tag, with the figures of its series. -/
theorem mem_byTag {r : Recorder} {e : Tag × Stats} :
    e ∈ r.byTag ↔ e.1 ∈ r.tags ∧ e.2 = r.figuresOf e.1 := by
  rw [byTag_eq, List.mem_map]
  constructor
  · rintro ⟨t, ht, rfl⟩
    exact ⟨ht, rfl⟩
  · rintro ⟨ht, hfigures⟩
    exact ⟨e.1, ht, by rw [← hfigures]⟩

/-- The tags stand in order, each of them once. -/
theorem tags_ascending (r : Recorder) : r.tags.Pairwise fun a b => compare a b = .lt := by
  rw [Recorder.tags, Recorder.byTag, List.map_map, List.pairwise_map]
  exact (r.series.foldl Recorder.fanOut .empty).ascending

/-- Every tag has one row. -/
theorem nodup_tags (r : Recorder) : r.tags.Nodup :=
  (tags_ascending r).imp fun h => by
    rintro rfl
    simp [ReflCmp.compare_self] at h

variable {log : List Sample} {r : Recorder} {t : Tag}

/-- No series is without samples. -/
theorem Recorded.inhabited (h : Recorded log r) {tags : TagSet} (ht : tags ∈ r.series.map (·.1)) :
    ∃ s ∈ log, s.tags = tags := by
  induction h with
  | empty => simp [Recorder.empty] at ht
  | record _ sample ih =>
    rw [Recorder.record, keys_push] at ht
    split at ht
    · obtain ⟨s, hs, htags⟩ := ih ht
      exact ⟨s, List.mem_append_left _ hs, htags⟩
    · rcases List.mem_append.1 ht with ht | ht
      · obtain ⟨s, hs, htags⟩ := ih ht
        exact ⟨s, List.mem_append_left _ hs, htags⟩
      · exact ⟨sample, List.mem_concat_self, (List.mem_singleton.1 ht).symm⟩
  | reorder _ hp ih => exact ih ((hp.map _).mem_iff.2 ht)

/-- The tags of a recorder are those that its samples carry. -/
theorem Recorded.mem_tags (h : Recorded log r) : t ∈ r.tags ↔ ∃ s ∈ log, s.Carries t := by
  rw [mem_tags_iff]
  constructor
  · rintro ⟨e, he, ht⟩
    obtain ⟨s, hs, htags⟩ := h.inhabited (List.mem_map_of_mem he)
    refine ⟨s, hs, ?_⟩
    rwa [Sample.carries_iff, htags]
  · rintro ⟨s, hs, ht⟩
    obtain ⟨e, he, htags⟩ := List.mem_map.1 (h.represents.covers s hs)
    refine ⟨e, he, ?_⟩
    rwa [htags, ← Sample.carries_iff]

/-- The figures of a tag are those of the samples that carry it. -/
theorem Represents.figuresOf (h : Represents r.series log) (t : Tag) :
    r.figuresOf t = (flat (log.filter fun s => s.Carries t)).stats := by
  have htotal := (h.filter fun tags => tags.holds t).total
  have hall : ((r.series.filter fun e => TagSet.holds e.1 t).filter fun e =>
      TagFilter.any.accepts e.1) = r.series.filter fun e => TagSet.holds e.1 t := by
    simp [TagFilter.accepts, TagFilter.carried, TagFilter.any]
  have hcarries :
      (log.filter fun s => TagSet.holds s.tags t) = log.filter fun s => s.Carries t := by
    simp [Sample.carries_iff]
  rw [Recorder.total, Recorder.select, hall, hcarries] at htotal
  exact htotal

/-- A filter that asks for one tag selects what counts for the tag. -/
theorem figuresOf_eq_select (r : Recorder) (ht : t.key ≠ outcomeKey) :
    r.figuresOf t = (r.select ⟨[t]⟩).stats := by
  have hwants : TagFilter.wantsSuccess ⟨[t]⟩ = none := by
    simp [TagFilter.wantsSuccess, ht]
  have haccepts (tags : TagSet) : TagFilter.accepts ⟨[t]⟩ tags = tags.holds t := by
    simp [TagFilter.accepts, TagFilter.carried, ht]
  simp only [Recorder.figuresOf, carriers, Recorder.select, hwants, haccepts]

/-! ## Rows with one key -/

/-- The rows of the table of all tags that have a key. -/
def Recorder.rows (r : Recorder) (key : String) : List (Tag × Stats) :=
  r.byTag.filter fun e => e.1.key = key

/-- What is counted in the rows with a key that all samples have adds up to what is counted in the
total. -/
theorem Recorded.sum_rows (h : Recorded log r) {key : String}
    (hkey : ∀ s ∈ log, (s.tags.get? key).isSome) {m : Stats → Nat} {p : Sample → Bool}
    (hmeasure : ∀ log, m (flat log).stats = log.countP p) :
    ((r.rows key).map fun e => m e.2).sum = m r.total := by
  let tags := r.tags.filter fun t => t.key = key
  have hrows : ((r.rows key).map fun e => m e.2) =
      tags.map fun t => (log.filter fun s => s.tagAt key = t).countP p := by
    rw [Recorder.rows, byTag_eq, List.filter_map, List.map_map]
    apply List.map_congr_left
    intro t ht
    have htkey : t.key = key := by simpa using (List.mem_filter.1 ht).2
    subst htkey
    have hpart : (log.filter fun s => s.Carries t) = log.filter fun s => s.tagAt t.key = t := by
      apply List.filter_congr
      intro s hs
      simp only [Sample.carries_iff_tagAt (hkey s hs)]
    rw [← hpart, ← hmeasure, ← h.represents.figuresOf t]
    rfl
  have hmem : ∀ s ∈ log, s.tagAt key ∈ tags := by
    intro s hs
    have hcarries : s.Carries (s.tagAt key) := (Sample.carries_iff_tagAt (hkey s hs)).2 rfl
    exact List.mem_filter.2 ⟨h.mem_tags.2 ⟨s, hs, hcarries⟩, by simp [Sample.tagAt]⟩
  have hd : tags.Nodup := (nodup_tags r).filter _
  rw [hrows, sum_countP_parts hd _ p hmem, h.represents.total, hmeasure]

/-- **The figures of each tag agree with selections.**  Whatever was recorded, in whatever order the
series stand:

* a tag has figures if and only if some sample carries it, and it has them once;
* they are the figures of the samples that carry it, and, unless the key of the tag asks for an
  outcome, those of the selection by the tag;
* the total figures are those of all samples, of which there are as many as were recorded;
* if all samples have some key, the counts of the tags with this key add up to those of the
  total. -/
theorem Recorded.byTag_agrees {log : List Sample} {r : Recorder} (h : Recorded log r) :
    (∀ t, (∃ figures, (t, figures) ∈ r.byTag) ↔ ∃ s ∈ log, s.Carries t) ∧
      (r.byTag.map (·.1)).Pairwise (fun a b => compare a b = .lt) ∧
      (∀ e ∈ r.byTag, e.2 = (flat (log.filter fun s => s.Carries e.1)).stats ∧
        (e.1.key ≠ outcomeKey → e.2 = (r.select ⟨[e.1]⟩).stats)) ∧
      r.total = (flat log).stats ∧ r.total.count = r.count ∧
      ∀ key, (∀ s ∈ log, (s.tags.get? key).isSome) →
        ((r.rows key).map (·.2.count)).sum = r.total.count ∧
          ((r.rows key).map (·.2.failures)).sum = r.total.failures ∧
          ∀ code, ((r.rows key).map fun e => (e.2.statuses.get? code).getD 0).sum =
            (r.total.statuses.get? code).getD 0 := by
  have htotal := h.represents.total
  have hcount (log : List Sample) : (flat log).stats.count = log.countP fun _ => true := by
    have hlength := (flat_matches log).count
    rw [wanted_any] at hlength
    rw [List.countP_true]
    exact hlength
  refine ⟨?_, ?_, ?_, htotal, ?_, ?_⟩
  · intro t
    rw [← h.mem_tags]
    simp [mem_byTag]
  · exact tags_ascending r
  · intro e he
    obtain ⟨-, hfigures⟩ := mem_byTag.1 he
    rw [hfigures]
    exact ⟨h.represents.figuresOf e.1, fun hkey => figuresOf_eq_select r hkey⟩
  · rw [htotal, hcount, h.represents.count_eq]
    simp
  · intro key hkey
    -- Samples, failures and each status are three counts of one kind: `sum_rows` adds them up.
    refine ⟨h.sum_rows hkey hcount, h.sum_rows hkey fun _ => rfl, ?_⟩
    intro code
    apply h.sum_rows hkey (m := fun figures => (figures.statuses.get? code).getD 0)
      (p := fun s => s.status = some code)
    intro log
    have hany : TagFilter.AnyOutcome .any := by simp [TagFilter.AnyOutcome, TagFilter.any]
    have hstatuses := ((flat_matches log).statuses hany).getD code
    rw [wanted_any, List.count, List.countP_filterMap] at hstatuses
    refine hstatuses.trans (List.countP_congr fun s _ => ?_)
    cases s.status <;> simp

/-- Two samples of one scenario, one of which carries the key that asks for an outcome. -/
theorem byTag_agrees_reserved :
    let tags : TagSet := SortedMap.empty.insert "scenario" "steady"
    let a : Sample := ⟨tags, .zero, .millis 2, .success, some 200⟩
    let b : Sample := ⟨tags.insert outcomeKey "true", .millis 1, .millis 3, .failure, some 500⟩
    let r := (Recorder.empty.record a).record b
    Recorded [a, b] r ∧ (∀ s ∈ [a, b], (s.tags.get? "scenario").isSome) ∧
      r.total.count = 2 ∧ ((r.rows "scenario").map (·.2.count)).sum = 2 ∧
      ∃ figures, (⟨outcomeKey, "true"⟩, figures) ∈ r.byTag ∧ figures.failures = 1 ∧
        (r.select ⟨[⟨outcomeKey, "true"⟩]⟩).failures = 0 := by
  intro tags a b r
  have h : Recorded [a, b] r := (Recorded.empty.record a).record b
  have hkey : ∀ s ∈ [a, b], (s.tags.get? "scenario").isSome := by decide +kernel
  obtain ⟨hrows, -, hfigures, -, hcount, hsums⟩ := h.byTag_agrees
  have htotal : r.total.count = 2 := hcount.trans (by decide +kernel)
  obtain ⟨figures, he⟩ := (hrows ⟨outcomeKey, "true"⟩).2 ⟨b, by simp, by decide +kernel⟩
  have hcarriers : figures = (flat ([a, b].filter fun s => s.Carries ⟨outcomeKey, "true"⟩)).stats :=
    (hfigures _ he).1
  refine ⟨h, hkey, htotal, (hsums "scenario" hkey).1.trans htotal, figures, he, ?_, ?_⟩
  · rw [hcarriers]
    decide +kernel
  · decide +kernel

end Metric

end LoadReplay
