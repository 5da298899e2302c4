import LoadReplay.Proofs.FlatLog

/-!
# Selections against a flat log

What can be read back from a recorder is what a plain list of the recorded samples says, whatever
the order in which they came and in which the series stand: `Selection.Matches` states this for one
selection, and `Recorded.select_matches` says that every selection matches.

## Shape of the proof

A selection is made of pieces of the log, one for each accepted tag set.  So it is a rearrangement
of the wanted samples that keeps the order of those with the same tag set.  A list is determined by
its items if it is ascending in a total order without ties, so the sorted latencies depend on
nothing else, and the mean, which is added up along them, does not either.
-/

namespace LoadReplay.Metric

/-! ## Pieces of a log -/

/-- The samples of a log, tag set after tag set. -/
def pieces (keys : List TagSet) (log : List Sample) : List Sample :=
  keys.flatMap fun tags => log.filter fun s => s.tags = tags

/-- Samples with tags that were not asked for are in no piece. -/
theorem pieces_filter_of_not_mem {keys : List TagSet} {tags : TagSet} (h : tags ∉ keys)
    (log : List Sample) : ((pieces keys log).filter fun s => s.tags = tags) = [] := by
  refine List.filter_eq_nil_iff.2 fun s hs => ?_
  obtain ⟨key, hkey, hs⟩ := List.mem_flatMap.1 hs
  have htags := (List.mem_filter.1 hs).2
  simp only [decide_eq_true_eq] at htags ⊢
  intro hc
  rw [htags] at hc
  exact h (hc ▸ hkey)

/-- The samples with one of the tag sets are the same as in the log, in the same order. -/
theorem pieces_filter {keys : List TagSet} (hd : keys.Nodup) {tags : TagSet} (h : tags ∈ keys)
    (log : List Sample) :
    ((pieces keys log).filter fun s => s.tags = tags) = log.filter fun s => s.tags = tags := by
  induction keys with
  | nil => simp at h
  | cons key rest ih =>
    obtain ⟨hkey, hd⟩ := List.nodup_cons.1 hd
    show (((log.filter fun s => s.tags = key) ++ pieces rest log).filter _) = _
    rw [List.filter_append, List.filter_filter]
    by_cases hk : tags = key
    · subst hk
      rw [pieces_filter_of_not_mem hkey, List.append_nil]
      simp
    · rw [ih hd ((List.mem_cons.1 h).resolve_left hk)]
      have : (log.filter fun s => decide (s.tags = tags) && decide (s.tags = key)) = [] := by
        refine List.filter_eq_nil_iff.2 fun s _ => ?_
        simp only [Bool.and_eq_true, decide_eq_true_eq, not_and]
        intro hs hc
        exact hk (hs.symm.trans hc)
      rw [this, List.nil_append]

/-- Lists that have the same samples with each tag set are rearrangements of each other. -/
theorem perm_of_filter_tags {a b : List Sample}
    (h : ∀ tags, (a.filter fun s => s.tags = tags) = b.filter fun s => s.tags = tags) :
    a.Perm b := by
  classical
  refine List.perm_iff_count.2 fun s => ?_
  have hs := congrArg (List.count s) (h s.tags)
  rwa [List.count_filter (by simp), List.count_filter (by simp)] at hs

/-! ## Adding up series -/

/-- The readings with the wanted outcome, series after series. -/
def kept (success : Option Bool) (series : List Series) : List Reading :=
  series.flatMap fun s => s.readings.toList.filter (Selection.wanted success)

/-- What a selection of some series has in all. -/
theorem foldl_add (success : Option Bool) (series : List Series) (sel : Selection) :
    let result := series.foldl (Selection.add success) sel
    let readings := kept success series
    result.successes = sel.successes + readings.countP (fun r => r.outcome.isSuccess) ∧
      result.failures = sel.failures + readings.countP (fun r => !r.outcome.isSuccess) ∧
      result.latenciesMs = sel.latenciesMs ++ readings.map (·.latencyMs) ∧
      result.timestamps = sel.timestamps ++ readings.map (·.sentAt) := by
  induction series generalizing sel with
  | nil => simp [kept]
  | cons s rest ih =>
    obtain ⟨h₁, h₂, h₃, h₄⟩ := ih (sel.add success s)
    have hk : kept success (s :: rest) =
        s.readings.toList.filter (Selection.wanted success) ++ kept success rest := rfl
    refine ⟨?_, ?_, ?_, ?_⟩
    · rw [List.foldl_cons, h₁, hk, List.countP_append, ← Nat.add_assoc]
      rfl
    · rw [List.foldl_cons, h₂, hk, List.countP_append, ← Nat.add_assoc]
      rfl
    · rw [List.foldl_cons, h₃, hk, List.map_append, ← List.append_assoc]
      rfl
    · rw [List.foldl_cons, h₄, hk, List.map_append, ← List.append_assoc]
      rfl

/-- Statuses are not counted where only one outcome is wanted. -/
theorem statuses_foldl_add_of_isSome {success : Option Bool} (h : success.isSome)
    (series : List Series) (sel : Selection) :
    (series.foldl (Selection.add success) sel).statuses = sel.statuses := by
  induction series generalizing sel with
  | nil => rfl
  | cons s rest ih => rw [List.foldl_cons, ih, Selection.add, if_pos h]

/-- Without a restriction to an outcome, the statuses of all series are counted together. -/
theorem statuses_foldl_add {log : List Sample} {series : List (TagSet × Series)}
    (hh : ∀ e ∈ series, e.2.Represents (log.filter fun s => s.tags = e.1)) {sel : Selection}
    {items : List Nat} (hsel : IsHistogram sel.statuses items) :
    IsHistogram ((series.map (·.2)).foldl (Selection.add none) sel).statuses
      (items ++ (pieces (series.map (·.1)) log).filterMap (·.status)) := by
  induction series generalizing sel items with
  | nil => simpa [pieces] using hsel
  | cons e rest ih =>
    have hhead := (hh e (List.mem_cons_self ..)).statuses
    have hadd : IsHistogram (sel.add none e.2).statuses _ := hsel.add hhead
    have := ih (fun e he => hh e (List.mem_cons_of_mem _ he)) hadd
    rw [List.append_assoc, ← List.filterMap_append] at this
    exact this

/-- The kept readings are those of the wanted samples, tag set after tag set. -/
theorem kept_eq {log : List Sample} {series : List (TagSet × Series)}
    (hh : ∀ e ∈ series, e.2.Represents (log.filter fun s => s.tags = e.1))
    (success : Option Bool) :
    kept success (series.map (·.2)) =
      ((pieces (series.map (·.1)) log).filter fun s =>
        success.all (· == s.outcome.isSuccess)).map readingOf := by
  induction series with
  | nil => rfl
  | cons e rest ih =>
    have hhead := (hh e (List.mem_cons_self ..)).readings
    have hrest := ih fun e he => hh e (List.mem_cons_of_mem _ he)
    show e.2.readings.toList.filter _ ++ kept success (rest.map (·.2)) = _
    rw [hhead, hrest, List.filter_map]
    show _ = (((log.filter fun s => s.tags = e.1) ++ pieces (rest.map (·.1)) log).filter _).map _
    rw [List.filter_append, List.map_append]
    rfl

/-! ## Latencies -/

/-- Numbers in the same place of the order are equal. -/
theorem orderKey_injective {a b : Float} (h : Number.orderKey a = Number.orderKey b) : a = b := by
  have hbits : a.toBits = b.toBits := by
    apply UInt64.toNat_inj.1
    have ha := a.toBits.toNat_lt
    have hb := b.toBits.toNat_lt
    simp only [Number.orderKey] at h
    split at h <;> split at h <;> omega
  obtain ⟨⟨bits, _⟩⟩ := a
  obtain ⟨⟨bits', _⟩⟩ := b
  obtain rfl : bits = bits' := hbits
  rfl

/-- Ascending in the total order of binary64 values. -/
def Ascending (l : List Float) : Prop :=
  l.Pairwise fun a b => Number.orderKey a ≤ Number.orderKey b

/-- The items of an ascending list determine it. -/
theorem Ascending.unique {a b : List Float} (ha : Ascending a) (hb : Ascending b)
    (hp : a.Perm b) : a = b :=
  hp.eq_of_pairwise (fun _ _ _ _ h h' => orderKey_injective (Int.le_antisymm h h')) ha hb

/-- Nothing in an ascending list is before its first value. -/
theorem Ascending.head_le {l : List Float} (h : Ascending l) (hne : l ≠ []) {x : Float}
    (hx : x ∈ l) : Number.orderKey (l.head hne) ≤ Number.orderKey x := by
  cases l with
  | nil => cases hx
  | cons first rest =>
    rcases List.mem_cons.1 hx with rfl | hrest
    · exact Int.le_refl _
    · exact (List.pairwise_cons.1 h).1 x hrest

/-- Nothing in an ascending list is behind its last value. -/
theorem Ascending.le_getLast {l : List Float} (h : Ascending l) (hne : l ≠ []) {x : Float}
    (hx : x ∈ l) : Number.orderKey x ≤ Number.orderKey (l.getLast hne) := by
  rw [← List.dropLast_append_getLast hne] at h hx
  rcases List.mem_append.1 hx with hfront | hlast
  · exact (List.pairwise_append.1 h).2.2 x hfront _ (List.mem_singleton.2 rfl)
  · exact Int.le_of_eq (congrArg _ (List.mem_singleton.1 hlast))

/-- Latencies that were sorted are in ascending order. -/
theorem ascending_sorted (sel : Selection) : Ascending sel.sorted.latenciesMs := by
  have h : sel.sorted.latenciesMs.Pairwise fun a b =>
      decide (Number.orderKey a ≤ Number.orderKey b) = true :=
    List.pairwise_mergeSort (by simpa using fun a b c => Int.le_trans)
      (by simpa using fun a b => Int.le_total _ _) sel.latenciesMs
  exact h.imp fun h => of_decide_eq_true h

/-! ## What a selection says about a log -/

/-- A selection says what the wanted samples of a log say. -/
structure Selection.Matches (sel : Selection) (f : TagFilter) (log : List Sample) : Prop where
  count : sel.count = (f.wanted log).length
  failures : sel.failures = (f.wanted log).countP fun s => s.outcome = .failure
  latencies : sel.latenciesMs.Perm ((f.wanted log).map (·.latencyMs))
  ascending : Ascending sel.latenciesMs
  /-- The timestamps stand in the order of recording if the tag sets are the same. -/
  timestamps : ∃ order : List Sample, sel.timestamps = order.map (·.sentAt) ∧
    order.Perm (f.wanted log) ∧
    ∀ tags, (order.filter fun s => s.tags = tags) = (f.wanted log).filter fun s => s.tags = tags
  statuses : f.AnyOutcome → IsHistogram sel.statuses ((f.wanted log).filterMap (·.status))
  noStatuses : ¬f.AnyOutcome → sel.statuses = .empty

/-- The pieces of a log that a selection is made of are its wanted samples. -/
theorem wanted_pieces {series : List (TagSet × Series)} {log : List Sample}
    (h : Represents series log) (f : TagFilter) (tags : TagSet) :
    (((pieces ((series.filter fun e => f.accepts e.1).map (·.1)) log).filter fun s =>
      f.wantsSuccess.all (· == s.outcome.isSuccess)).filter fun s => s.tags = tags) =
      (f.wanted log).filter fun s => s.tags = tags := by
  have hd : ((series.filter fun e => f.accepts e.1).map (·.1)).Nodup :=
    h.distinct.sublist (List.filter_sublist.map _)
  rw [List.filter_comm]
  by_cases hm : tags ∈ (series.filter fun e => f.accepts e.1).map (·.1)
  · rw [pieces_filter hd hm, TagFilter.wanted, List.filter_filter, List.filter_filter]
    obtain ⟨e, he, rfl⟩ := List.mem_map.1 hm
    have hacc := (List.mem_filter.1 he).2
    refine List.filter_congr fun s _ => ?_
    rw [Bool.eq_iff_iff]
    simp only [Bool.and_eq_true, decide_eq_true_eq, f.wants_iff]
    constructor
    · rintro ⟨hw, hs⟩
      exact ⟨hs, hs ▸ hacc, hw⟩
    · rintro ⟨hs, _, hw⟩
      exact ⟨hw, hs⟩
  · rw [pieces_filter_of_not_mem hm, List.filter_nil, TagFilter.wanted, List.filter_filter]
    refine (List.filter_eq_nil_iff.2 fun s hs => ?_).symm
    simp only [Bool.and_eq_true, decide_eq_true_eq, f.wants_iff, not_and]
    intro ht hacc _
    subst ht
    obtain ⟨e, he, htags⟩ := List.mem_map.1 (h.covers s hs)
    exact hm (List.mem_map.2 ⟨e, List.mem_filter.2 ⟨he, by rw [htags]; exact hacc⟩, htags⟩)

/-- What is selected from the series of a log matches it. -/
theorem Represents.selection_matches {series : List (TagSet × Series)} {log : List Sample}
    (h : Represents series log) (f : TagFilter) :
    ((Recorder.mk series).select f).Matches f log := by
  -- `order` is the log as the selection reads it: series after series, and only what the filter
  -- wants.
  let accepted := series.filter fun e => f.accepts e.1
  let order := (pieces (accepted.map (·.1)) log).filter fun s =>
    f.wantsSuccess.all (· == s.outcome.isSuccess)
  have hh : ∀ e ∈ accepted, e.2.Represents (log.filter fun s => s.tags = e.1) :=
    fun e he => h.holds e (List.mem_filter.1 he).1
  have hsame : ∀ tags, (order.filter fun s => s.tags = tags) =
      (f.wanted log).filter fun s => s.tags = tags := wanted_pieces h f
  have hperm : order.Perm (f.wanted log) := perm_of_filter_tags hsame
  have hkept : kept f.wantsSuccess (accepted.map (·.2)) = order.map readingOf := kept_eq hh _
  -- The fold over the series in closed form; what is left is to compare it with the log field by
  -- field.
  obtain ⟨hs, hf, hl, ht⟩ := foldl_add f.wantsSuccess (accepted.map (·.2)) .empty
  simp only [hkept] at hs hf hl ht
  let sum := (accepted.map (·.2)).foldl (Selection.add f.wantsSuccess) .empty
  show sum.sorted.Matches f log
  refine ⟨?_, ?_, ?_, ascending_sorted sum, ⟨order, ?_, hperm, hsame⟩, ?_, ?_⟩
  · show sum.successes + sum.failures = _
    have hlength : (order.map readingOf).length = _ + _ :=
      List.length_eq_countP_add_countP fun r : Reading => r.outcome.isSuccess
    rw [List.length_map] at hlength
    rw [hs, hf, ← hperm.length_eq, hlength]
    simp [Selection.empty]
  · show sum.failures = _
    rw [hf, ← hperm.countP_eq, List.countP_map]
    simp only [Selection.empty, Nat.zero_add]
    refine List.countP_congr fun s _ => ?_
    show (!s.outcome.isSuccess) = true ↔ _
    cases s.outcome <;> simp [Outcome.isSuccess]
  · refine (List.mergeSort_perm _ _).trans ?_
    rw [hl, List.map_map]
    exact hperm.map _
  · show sum.timestamps = _
    rw [ht, List.map_map]
    rfl
  · intro hany
    have hnone := f.wantsSuccess_eq_none.2 hany
    have hempty : IsHistogram Selection.empty.statuses [] := .empty
    have hstatuses := statuses_foldl_add hh hempty
    show IsHistogram sum.statuses _
    have horder : order = pieces (accepted.map (·.1)) log := by
      simp [order, hnone]
    rw [← horder, ← hnone] at hstatuses
    exact hstatuses.perm (hperm.filterMap _)
  · intro hany
    refine statuses_foldl_add_of_isSome ?_ _ _
    rw [Option.isSome_iff_ne_none]
    exact fun hn => hany (f.wantsSuccess_eq_none.1 hn)

/-- A recorder has counted all samples of the log. -/
theorem Represents.count_eq {series : List (TagSet × Series)} {log : List Sample}
    (h : Represents series log) : (Recorder.mk series).count = log.length := by
  have hperm : (pieces (series.map (·.1)) log).Perm log := by
    refine perm_of_filter_tags fun tags => ?_
    by_cases hm : tags ∈ series.map (·.1)
    · exact pieces_filter h.distinct hm log
    · rw [pieces_filter_of_not_mem hm]
      refine (List.filter_eq_nil_iff.2 fun s hs => ?_).symm
      simp only [decide_eq_true_eq]
      intro hc
      exact hm (hc ▸ h.covers s hs)
  have hsizes : series.map (fun e => e.2.readings.size) =
      (series.map (·.1)).map fun tags => (log.filter fun s => s.tags = tags).length := by
    rw [List.map_map]
    refine List.map_congr_left fun e he => ?_
    rw [← Array.length_toList, (h.holds e he).readings, List.length_map]
    rfl
  rw [← hperm.length_eq, pieces, List.length_flatMap, ← hsizes, List.sum_eq_foldr, List.foldr_map]
  rfl

/-! ## What does not depend on the order -/

/-- Folding a list that is not empty with an operation. -/
def reduce (pick : Span → Span → Span) : List Span → Option Span
  | [] => none
  | t :: rest => some (rest.foldl pick t)

/-- The least and the greatest of some moments do not depend on their order. -/
theorem reduce_perm {pick : Span → Span → Span} (hcomm : ∀ a b, pick a b = pick b a)
    (hright : ∀ a b c, pick (pick a b) c = pick (pick a c) b) {l l' : List Span}
    (hp : l.Perm l') : reduce pick l = reduce pick l' := by
  induction hp with
  | nil => rfl
  | cons t hp _ =>
    have : RightCommutative pick := ⟨hright⟩
    rw [reduce, reduce, hp.foldl_eq]
  | swap a b l => rw [reduce, reduce, List.foldl_cons, List.foldl_cons, hcomm]
  | trans _ _ ih ih' => exact ih.trans ih'

/-- The first moment is the least one, -/
theorem firstAt_eq (sel : Selection) : sel.firstAt = reduce Span.least sel.timestamps := by
  rw [Selection.firstAt]
  cases sel.timestamps <;> rfl

/-- and the last one is the greatest. -/
theorem lastAt_eq (sel : Selection) : sel.lastAt = reduce Span.greatest sel.timestamps := by
  rw [Selection.lastAt]
  cases sel.timestamps <;> rfl

/-- The greatest of two lengths has the greatest number of nanoseconds. -/
theorem nanos_greatest (a b : Span) : (Span.greatest a b).nanos = max a.nanos b.nanos := by
  unfold Span.greatest
  split <;> rename_i h <;> rw [Span.le_def] at h <;> omega

/-- The figures of two selections are the same. -/
structure Selection.SameFigures (a b : Selection) : Prop where
  latencies : a.latenciesMs = b.latenciesMs
  stats : a.stats = b.stats
  failureRate : a.failureRate = b.failureRate
  percentile : ∀ p, a.percentile p = b.percentile p

/-- Selections that match rearrangements of one log have the same figures. -/
theorem Selection.Matches.sameFigures {a b : Selection} {f : TagFilter} {log log' : List Sample}
    (ha : a.Matches f log) (hb : b.Matches f log') (hp : log.Perm log') : a.SameFigures b := by
  have hwanted : (f.wanted log).Perm (f.wanted log') := hp.filter _
  have hcount : a.count = b.count := by rw [ha.count, hb.count, hwanted.length_eq]
  have hfailures : a.failures = b.failures := by
    rw [ha.failures, hb.failures, hwanted.countP_eq]
  have hlatencies : a.latenciesMs = b.latenciesMs :=
    ha.ascending.unique hb.ascending
      (ha.latencies.trans ((hwanted.map _).trans hb.latencies.symm))
  have htimestamps : a.timestamps.Perm b.timestamps := by
    obtain ⟨order, ht, horder, _⟩ := ha.timestamps
    obtain ⟨order', ht', horder', _⟩ := hb.timestamps
    rw [ht, ht']
    exact (horder.trans (hwanted.trans horder'.symm)).map _
  -- First and last moments are the least and the greatest, which no order of the samples changes.
  have hfirst : a.firstAt = b.firstAt := by
    rw [firstAt_eq, firstAt_eq]
    refine reduce_perm (fun x y => ?_) (fun x y z => ?_) htimestamps
    · exact Span.ext_nanos (by simp only [Span.nanos_least]; omega)
    · exact Span.ext_nanos (by simp only [Span.nanos_least]; omega)
  have hlast : a.lastAt = b.lastAt := by
    rw [lastAt_eq, lastAt_eq]
    refine reduce_perm (fun x y => ?_) (fun x y z => ?_) htimestamps
    · exact Span.ext_nanos (by simp only [nanos_greatest]; omega)
    · exact Span.ext_nanos (by simp only [nanos_greatest]; omega)
  have hstatuses : a.statuses = b.statuses := by
    by_cases hany : f.AnyOutcome
    · exact (ha.statuses hany).unique ((hb.statuses hany).perm (hwanted.symm.filterMap _))
    · rw [ha.noStatuses hany, hb.noStatuses hany]
  refine ⟨hlatencies, ?_, ?_, fun p => ?_⟩
  · simp only [stats, min, max, mean, percentile, percentileBy, hcount, hfailures, hlatencies,
      hfirst, hlast, hstatuses]
  · rw [failureRate, failureRate, isEmpty, isEmpty, hcount, hfailures]
  · rw [percentile, percentile, percentileBy, percentileBy, hlatencies]

/-- **Every selection from a recorder says what the flat log of its samples says**, and neither the
order in which the samples were recorded nor the order of the series changes any of its figures. -/
theorem Recorded.select_matches {log log' : List Sample} {r r' : Recorder} (h : Recorded log r)
    (h' : Recorded log' r') (hp : log.Perm log') (f : TagFilter) :
    (r.select f).Matches f log ∧ r.count = log.length ∧
      (r.select f).SameFigures (r'.select f) ∧ r.count = r'.count := by
  have hm := h.represents.selection_matches f
  have hm' := h'.represents.selection_matches f
  have hc := h.represents.count_eq
  have hc' := h'.represents.count_eq
  exact ⟨hm, hc, hm.sameFigures hm' hp, by rw [hc, hc', hp.length_eq]⟩

/-- Two samples of two endpoints, recorded in either order, and one of them selected. -/
theorem select_matches_endpoint :
    let tags (v : String) : TagSet := SortedMap.empty.insert "endpoint" v
    let a : Sample := ⟨tags "a", .zero, .millis 2, .success, some 200⟩
    let b : Sample := ⟨tags "b", .millis 1, .millis 3, .failure, none⟩
    let r := (Recorder.empty.record a).record b
    let r' := (Recorder.empty.record b).record a
    let f : TagFilter := ⟨[⟨"endpoint", "a"⟩, ⟨outcomeKey, "TRUE"⟩]⟩
    Recorded [a, b] r ∧ Recorded [b, a] r' ∧ [a, b].Perm [b, a] ∧
      (r.select f).Matches f [a, b] ∧ r.count = 2 ∧ (r.select f).count = 1 ∧
      (r.select f).SameFigures (r'.select f) := by
  intro tags a b r r' f
  have h : Recorded [a, b] r := (Recorded.empty.record a).record b
  have h' : Recorded [b, a] r' := (Recorded.empty.record b).record a
  have hp : [a, b].Perm [b, a] := .swap b a []
  obtain ⟨hm, hc, hs, _⟩ := h.select_matches h' hp f
  exact ⟨h, h', hp, hm, hc, hm.count.trans (by decide +kernel), hs⟩

end LoadReplay.Metric
