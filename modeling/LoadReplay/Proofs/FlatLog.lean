import LoadReplay.Metric.Selection
import LoadReplay.Proofs.Histogram
import Mathlib.Data.List.Count
import Mathlib.Data.List.Nodup

/-!
# The recorder against a flat log

A recorder keeps series by tag set, with status counts beside them.  It `Represents` a log of
samples: its series have different tag sets, each of them holds the samples of the log with its tag
set, in their order, and no sample is missing.  Recording a sample keeps this, and so does any other
order of the series (`Recorded.represents`).
-/

namespace LoadReplay

/-! ## What a filter asks for -/

namespace TagFilter

/-- Whether a sample is one that a filter asks for: it carries all tags but those with the reserved
key, and the last one of these says which outcome it has. -/
def Wants (f : TagFilter) (s : Sample) : Prop :=
  (∀ t ∈ f.tags, t.key ≠ outcomeKey → s.tags.get? t.key = some t.value) ∧
    ∀ t ∈ (f.tags.filter fun t => t.key = outcomeKey).getLast?,
      (s.outcome = .success ↔ t.value.toLower = "true")

instance (f : TagFilter) : DecidablePred f.Wants := fun _ =>
  inferInstanceAs (Decidable (_ ∧ _))

/-- The samples of a log that a filter asks for. -/
def wanted (f : TagFilter) (log : List Sample) : List Sample := log.filter fun s => f.Wants s

/-- Whether a filter asks for no outcome. -/
def AnyOutcome (f : TagFilter) : Prop := ∀ t ∈ f.tags, t.key ≠ outcomeKey

/-- Characters are lowered one by one. -/
private theorem lowerChar_eq (c : Char) : Text.lowerChar c = c.toLower := by
  by_cases h : c.toNat < 91
  · have hall : ∀ n < 91, Text.lowerChar (.ofNat n) = (Char.ofNat n).toLower := by decide
    have := hall c.toNat h
    rwa [Char.ofNat_toNat] at this
  · have hz : ¬c ≤ 'Z' := fun hc => h (Nat.lt_succ_of_le hc)
    have hlower : c.toLower = c := dif_neg fun hc => hz hc.2
    rw [Text.lowerChar, if_neg fun hc => hz hc.2, hlower]

/-- A value says true in either case. -/
private theorem says_true (t : Tag) :
    Text.lower t.value.toList = "true".toList ↔ t.value.toLower = "true" := by
  have : Text.lower t.value.toList = t.value.toLower.toList := by
    have hmap : t.value.toLower.toList = t.value.toList.map Char.toLower := String.toList_map
    rw [hmap, Text.lower]
    exact List.map_congr_left fun c _ => lowerChar_eq c
  rw [this, String.toList_inj]

/-- A sample is wanted if its tag set is accepted and its outcome is the one asked for. -/
theorem wants_iff (f : TagFilter) (s : Sample) :
    f.Wants s ↔ f.accepts s.tags ∧ f.wantsSuccess.all (· == s.outcome.isSuccess) := by
  refine and_congr ?_ ?_
  · simp only [accepts, carried, TagSet.holds, List.all_eq_true, List.mem_filter, bne_iff_ne,
      beq_iff_eq, and_imp]
  · rw [wantsSuccess, ← List.head?_filter, List.filter_reverse, List.head?_reverse]
    simp only [beq_eq_decide]
    cases (f.tags.filter fun t => t.key = outcomeKey).getLast? with
    | none => simp
    | some t =>
      simp only [says_true]
      cases s.outcome <;> simp [Outcome.isSuccess]

/-- No outcome is wanted exactly if the filter has no word about it. -/
theorem wantsSuccess_eq_none (f : TagFilter) : f.wantsSuccess = none ↔ f.AnyOutcome := by
  simp [wantsSuccess, AnyOutcome]

end TagFilter

namespace Metric

/-! ## Recorded logs -/

/-- The recorders that a log of samples may lead to.  The series stand in no particular order, which
may change at any time. -/
inductive Recorded : List Sample → Recorder → Prop where
  | empty : Recorded [] .empty
  | record {log : List Sample} {r : Recorder} (h : Recorded log r) (sample : Sample) :
    Recorded (log ++ [sample]) (r.record sample)
  | reorder {log : List Sample} {r r' : Recorder} (h : Recorded log r)
    (hp : r.series.Perm r'.series) : Recorded log r'

/-- What a series keeps of a sample. -/
def readingOf (s : Sample) : Reading := ⟨s.sentAt, s.latencyMs, s.outcome⟩

/-- Whether a series holds just some samples, in their order. -/
structure Series.Represents (s : Series) (samples : List Sample) : Prop where
  readings : s.readings.toList = samples.map readingOf
  statuses : IsHistogram s.statuses (samples.filterMap (·.status))

/-- Whether some series hold a log, each of them the samples with its tag set. -/
structure Represents (series : List (TagSet × Series)) (log : List Sample) : Prop where
  distinct : (series.map (·.1)).Nodup
  covers : ∀ s ∈ log, s.tags ∈ series.map (·.1)
  holds : ∀ e ∈ series, e.2.Represents (log.filter fun s => s.tags = e.1)

/-- An empty series holds nothing. -/
theorem Series.represents_empty : Series.empty.Represents [] := ⟨rfl, .empty⟩

/-- A sample is pushed behind the others. -/
theorem Series.Represents.push {s : Series} {samples : List Sample} (h : s.Represents samples)
    (sample : Sample) : (s.push sample).Represents (samples ++ [sample]) := by
  constructor
  · rw [Series.push, Array.toList_push, h.readings, List.map_append]
    rfl
  · rw [Series.push, List.filterMap_append]
    match hs : sample.status with
    | none => simpa [hs] using h.statuses
    | some status => simpa [hs] using h.statuses.tally status

/-- A sample is recorded under its tag set. -/
theorem keys_push (sample : Sample) (series : List (TagSet × Series)) :
    (Recorder.push sample series).map (·.1) =
      if sample.tags ∈ series.map (·.1) then series.map (·.1)
      else series.map (·.1) ++ [sample.tags] := by
  induction series with
  | nil => simp [Recorder.push]
  | cons e rest ih =>
    obtain ⟨tags, s⟩ := e
    by_cases h : tags = sample.tags
    · simp [Recorder.push, h]
    · rw [Recorder.push, if_neg h, List.map_cons, ih]
      by_cases hr : sample.tags ∈ rest.map (·.1) <;> simp [hr, Ne.symm h]

/-- A sample with other tags is not in the series. -/
private theorem filter_tags_of_ne {sample : Sample} {tags : TagSet} (h : sample.tags ≠ tags)
    (log : List Sample) :
    ((log ++ [sample]).filter fun s => s.tags = tags) = log.filter fun s => s.tags = tags := by
  simp [List.filter_append, h]

/-- A sample with its tags comes last in it. -/
private theorem filter_tags_self (sample : Sample) (log : List Sample) :
    ((log ++ [sample]).filter fun s => s.tags = sample.tags) =
      (log.filter fun s => s.tags = sample.tags) ++ [sample] := by
  simp [List.filter_append]

/-- The series after one more sample.  If none of them has its tag set, neither has any sample of
the log. -/
private theorem holds_push {series : List (TagSet × Series)} {log : List Sample} (sample : Sample)
    (hd : (series.map (·.1)).Nodup)
    (hh : ∀ e ∈ series, e.2.Represents (log.filter fun s => s.tags = e.1))
    (hs : sample.tags ∈ series.map (·.1) ∨ (log.filter fun s => s.tags = sample.tags) = []) :
    ∀ e ∈ Recorder.push sample series,
      e.2.Represents ((log ++ [sample]).filter fun s => s.tags = e.1) := by
  -- Down the list of series, as the sample is put into the first one with its tags.
  induction series with
  | nil =>
    intro e he
    obtain rfl := List.mem_singleton.1 he
    rw [filter_tags_self, hs.resolve_left (by simp)]
    exact Series.represents_empty.push sample
  | cons hd' rest ih =>
    obtain ⟨tags, s⟩ := hd'
    rw [List.map_cons, List.nodup_cons] at hd
    have hhead := hh _ (List.mem_cons_self ..)
    have hrest := fun e he => hh e (List.mem_cons_of_mem _ he)
    intro e he
    by_cases ht : tags = sample.tags
    · rw [Recorder.push, if_pos ht] at he
      rcases List.mem_cons.1 he with rfl | he
      · subst ht
        rw [filter_tags_self]
        exact hhead.push sample
      · have hne : sample.tags ≠ e.1 := fun hc => hd.1 (by
          rw [ht, hc]
          exact List.mem_map.2 ⟨e, he, rfl⟩)
        rw [filter_tags_of_ne hne]
        exact hrest e he
    · rw [Recorder.push, if_neg ht] at he
      rcases List.mem_cons.1 he with rfl | he
      · rw [filter_tags_of_ne (Ne.symm ht)]
        exact hhead
      · refine ih hd.2 hrest (hs.imp_left fun hm => ?_) e he
        exact (List.mem_cons.1 hm).resolve_left (Ne.symm ht)

/-- Recording keeps the representation. -/
theorem Represents.push {series : List (TagSet × Series)} {log : List Sample}
    (h : Represents series log) (sample : Sample) :
    Represents (Recorder.push sample series) (log ++ [sample]) := by
  refine ⟨?_, ?_, holds_push sample h.distinct h.holds ?_⟩
  · rw [keys_push]
    split
    · exact h.distinct
    · rename_i hn
      exact List.nodup_append.2 ⟨h.distinct, by simp, by
        intro a ha b hb hab
        rw [List.mem_singleton.1 hb] at hab
        exact hn (hab ▸ ha)⟩
  · intro s hs
    rw [keys_push]
    rcases List.mem_append.1 hs with hs | hs
    · split
      · exact h.covers s hs
      · exact List.mem_append_left _ (h.covers s hs)
    · rw [List.mem_singleton.1 hs]
      split
      · assumption
      · simp
  -- The series of the sample is there, or the log has no sample with these tags.
  · by_cases hm : sample.tags ∈ series.map (·.1)
    · exact .inl hm
    · refine .inr (List.filter_eq_nil_iff.2 fun s hs => ?_)
      have := h.covers s hs
      simp only [decide_eq_true_eq]
      intro hc
      exact hm (hc ▸ this)

/-- The order of the series does not matter. -/
theorem Represents.perm {series series' : List (TagSet × Series)} {log : List Sample}
    (h : Represents series log) (hp : series.Perm series') : Represents series' log := by
  refine ⟨(hp.map _).nodup_iff.1 h.distinct, fun s hs => ?_, fun e he => ?_⟩
  · exact (hp.map _).mem_iff.1 (h.covers s hs)
  · exact h.holds e (hp.mem_iff.2 he)

/-- Whatever was recorded is there. -/
theorem Recorded.represents {log : List Sample} {r : Recorder} (h : Recorded log r) :
    Represents r.series log := by
  induction h with
  | empty => exact ⟨List.nodup_nil, by simp, by simp [Recorder.empty]⟩
  | record _ sample ih => exact ih.push sample
  | reorder _ hp ih => exact ih.perm hp

end Metric

end LoadReplay
