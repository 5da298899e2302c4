import LoadReplay.Proofs.TagFigures
import LoadReplay.Run.Report
import Mathlib.Data.List.Induction
import Mathlib.Data.List.Nodup
import Mathlib.Data.List.Perm.Subperm

/-!
# The rows of a summary

The figures of a run are kept tag by tag.  Its summary keeps them by the texts of the tags, and one
text may be that of several tags: whatever stands before the first equals sign is the key to a
reader, but nothing keeps equals signs out of keys, neither in catalogs nor in configurations.  Of
the tags with one text the last one has its row in the summary, and the others have none
(`Recorded.summary_rows`).

## Shape of the proof

A map that is made from a list has at each key what comes last in the list (`get?_ofList`) and as
many entries as the list has different keys (`size_ofList_eq_iff`).  Two tags have one text exactly
if they are the same or one of them has a piece of the other one's value in its key
(`Tag.text_eq_iff`).
-/

namespace LoadReplay

open Std

/-! ## Maps made from lists -/

namespace SortedMap

variable {κ ν : Type} [Ord κ] [TransOrd κ] [LawfulEqOrd κ]

omit [TransOrd κ] in
/-- What is found at a key is the first entry with it. -/
theorem search_eq_find? [DecidableEq κ] (k : κ) (l : List (κ × ν)) :
    search k l = (l.find? fun e => e.1 = k).map (·.2) := by
  induction l with
  | nil => rfl
  | cons e rest ih =>
    obtain ⟨k', v⟩ := e
    rw [search, List.find?_cons]
    by_cases hk : k' = k
    · subst hk
      rw [if_pos ReflCmp.compare_self, decide_eq_true rfl]
      rfl
    · have hc : compare k k' ≠ .eq := fun hc => hk (LawfulEqCmp.eq_of_compare hc).symm
      rw [if_neg hc, decide_eq_false hk, ih]

variable [DecidableEq κ]

omit [LawfulEqOrd κ] [DecidableEq κ] in
/-- The last entry is put into the map of the others. -/
theorem ofList_concat (l : List (κ × ν)) (e : κ × ν) :
    ofList (l ++ [e]) = (ofList l).insert e.1 e.2 :=
  List.foldl_concat _ _ _ _

/-- What comes last in the list wins. -/
theorem get?_ofList (l : List (κ × ν)) (k : κ) : (ofList l).get? k = search k l.reverse := by
  induction l using List.reverseRecOn with
  | nil => rfl
  | append_singleton l e ih =>
    rw [ofList_concat, get?_insert, List.reverse_concat, search, ih]
    simp only [LawfulEqCmp.compare_eq_iff_eq]

/-- A value stands at a key if it is in the list with no other one behind it. -/
theorem get?_ofList_eq_some {l : List (κ × ν)} {k : κ} {v : ν} :
    (ofList l).get? k = some v ↔
      ∃ before after, l = before ++ (k, v) :: after ∧ ∀ e ∈ after, e.1 ≠ k := by
  rw [get?_ofList, search_eq_find?, Option.map_eq_some_iff]
  constructor
  · rintro ⟨⟨k', v'⟩, hfind, rfl⟩
    obtain ⟨hk, later, earlier, hsplit, hlater⟩ := List.find?_eq_some_iff_append.1 hfind
    obtain rfl : k' = k := by simpa using hk
    refine ⟨earlier.reverse, later.reverse, ?_, ?_⟩
    · rw [← List.reverse_inj, hsplit]
      simp
    · intro e he
      simpa using hlater e (List.mem_reverse.1 he)
  · rintro ⟨before, after, rfl, hafter⟩
    refine ⟨(k, v), ?_, rfl⟩
    refine List.find?_eq_some_iff_append.2 ⟨by simp, after.reverse, before.reverse, ?_, ?_⟩
    · simp
    · intro e he
      simpa using hafter e (List.mem_reverse.1 he)

omit [TransOrd κ] [DecidableEq κ] in
/-- The keys are those at which something is found. -/
theorem mem_keys {m : SortedMap κ ν} {k : κ} : k ∈ m.keys ↔ ∃ v, m.get? k = some v := by
  simp only [get?_eq_some, keys, List.mem_map]
  constructor
  · rintro ⟨e, he, rfl⟩
    exact ⟨e.2, he⟩
  · rintro ⟨v, hv⟩
    exact ⟨(k, v), hv, rfl⟩

omit [TransOrd κ] [DecidableEq κ] in
/-- No key is there twice. -/
theorem nodup_keys (m : SortedMap κ ν) : m.keys.Nodup := by
  rw [keys, List.nodup_iff_pairwise_ne, List.pairwise_map]
  refine m.ascending.imp fun {a b} hlt heq => ?_
  have hself : compare b.1 b.1 = .eq := ReflCmp.compare_self
  rw [heq, hself] at hlt
  cases hlt

/-- The keys of a map are those that were put in. -/
theorem mem_keys_ofList {l : List (κ × ν)} {k : κ} : k ∈ (ofList l).keys ↔ k ∈ l.map (·.1) := by
  rw [mem_keys, get?_ofList, search_eq_find?, ← Option.isSome_iff_exists, Option.isSome_map,
    List.find?_isSome]
  simp

/-- The map has as many entries as the list only if no key comes twice. -/
theorem size_ofList_eq_iff {l : List (κ × ν)} :
    (ofList l).size = l.length ↔ (l.map (·.1)).Nodup := by
  have hlength : (ofList l).keys.length = (ofList l).size := List.length_map _
  have hmem : ∀ k, k ∈ (ofList l).keys ↔ k ∈ l.map (·.1) := fun _ => mem_keys_ofList
  constructor
  · intro hsize
    have hsub : (ofList l).keys.Subperm (l.map (·.1)) :=
      List.subperm_of_subset (nodup_keys _) fun k hk => (hmem k).1 hk
    have hle : (l.map (·.1)).length ≤ (ofList l).keys.length :=
      Nat.le_of_eq (by rw [hlength, hsize, List.length_map])
    have hperm := hsub.perm_of_length_le hle
    exact hperm.nodup_iff.1 (nodup_keys _)
  · intro hnodup
    have hperm := (List.perm_ext_iff_of_nodup (nodup_keys _) hnodup).2 hmem
    rw [← hlength, hperm.length_eq, List.length_map]

end SortedMap

/-! ## Texts of tags -/

namespace Tag

/-- Whether `b` has the text of `a` with a later equals sign as the end of its key. -/
def Slides (a b : Tag) : Prop :=
  ∃ piece, b.key = a.key ++ "=" ++ piece ∧ a.value = piece ++ "=" ++ b.value

/-- A tag that slides into another one has the same text. -/
theorem Slides.text_eq {a b : Tag} (h : a.Slides b) : a.text = b.text := by
  obtain ⟨piece, hkey, hvalue⟩ := h
  rw [text, text, hkey, hvalue]
  simp only [String.append_assoc]

/-- A tag slides only across an equals sign in a key. -/
theorem Slides.mem_key {a b : Tag} (h : a.Slides b) : '=' ∈ b.key.toList := by
  obtain ⟨piece, hkey, -⟩ := h
  rw [hkey]
  simp

/-- A key is shorter than what slides into it, so no tag slides into itself. -/
theorem Slides.ne {a b : Tag} (h : a.Slides b) : a ≠ b := by
  rintro rfl
  obtain ⟨piece, hkey, -⟩ := h
  have hlength := congrArg String.length hkey
  rw [String.length_append, String.length_append] at hlength
  have : ("=" : String).length = 1 := rfl
  omega

/-- What has to be cut where the first text goes on with its value. -/
theorem slides_of_split {a b : Tag} {piece : List Char}
    (hkey : b.key.toList = a.key.toList ++ piece)
    (hvalue : '=' :: a.value.toList = piece ++ '=' :: b.value.toList) : a = b ∨ a.Slides b := by
  cases piece with
  | nil =>
    obtain ⟨-, hvalue⟩ := List.cons.inj hvalue
    rw [List.append_nil, String.toList_inj] at hkey
    obtain ⟨key, value⟩ := a
    obtain rfl : b.key = key := hkey
    obtain rfl : value = b.value := String.toList_inj.1 hvalue
    exact .inl rfl
  | cons c piece =>
    obtain ⟨rfl, hrest⟩ := List.cons.inj hvalue
    refine .inr ⟨String.ofList piece, String.toList_inj.1 ?_, String.toList_inj.1 ?_⟩
    · rw [hkey]
      simp
    · have hrest : a.value.toList = piece ++ '=' :: b.value.toList := hrest
      rw [hrest]
      simp

/-- Two tags have one text exactly if one of them has a piece of the other one's value in its
key. -/
theorem text_eq_iff {a b : Tag} : a.text = b.text ↔ a = b ∨ a.Slides b ∨ b.Slides a := by
  constructor
  · intro h
    rw [← String.toList_inj, toList_text, toList_text] at h
    rcases List.append_eq_append_iff.1 h with ⟨piece, hkey, hvalue⟩ | ⟨piece, hkey, hvalue⟩
    · exact (slides_of_split hkey hvalue).imp_right .inl
    · exact (slides_of_split hkey hvalue).imp Eq.symm .inr
  · rintro (rfl | h | h)
    · rfl
    · exact h.text_eq
    · exact h.text_eq.symm

end Tag

/-! ## Rows and figures -/

/-- The row that is made of the figures of a tag, with its text. -/
def rowOf (e : Tag × Metric.Stats) : String × FigureSummary := (e.1.text, .of e.2)

/-- The rows of a summary are put in one after another. -/
theorem RunReport.summary_tags (rep : RunReport) :
    rep.summary.tags = .ofList (rep.byTag.map rowOf) := rfl

/-- Each row stands at the text of its tag. -/
theorem map_text_rowOf (l : List (Tag × Metric.Stats)) :
    (l.map rowOf).map (·.1) = l.map fun e => e.1.text := by
  rw [List.map_map]
  rfl

/-- Whether the summary of a report has a row for each tag with figures, and in it these figures. -/
structure RunReport.KeepsRows (rep : RunReport) : Prop where
  size : rep.summary.tags.size = rep.byTag.length
  row : ∀ e ∈ rep.byTag, rep.summary.tags.get? e.1.text = some (.of e.2)

/-- No row is lost exactly if no two tags share a text. -/
theorem RunReport.size_rows_iff (rep : RunReport) :
    rep.summary.tags.size = rep.byTag.length ↔ (rep.byTag.map fun e => e.1.text).Nodup := by
  have hlength : rep.byTag.length = (rep.byTag.map rowOf).length := (List.length_map _).symm
  rw [rep.summary_tags, hlength, SortedMap.size_ofList_eq_iff, map_text_rowOf]

/-- The row at a text is that of the last one of the tags with this text. -/
theorem RunReport.get?_row {rep : RunReport} {text : String} {row : FigureSummary} :
    rep.summary.tags.get? text = some row ↔
      ∃ before e after, rep.byTag = before ++ e :: after ∧ e.1.text = text ∧ row = .of e.2 ∧
        ∀ e' ∈ after, e'.1.text ≠ text := by
  rw [rep.summary_tags, SortedMap.get?_ofList_eq_some]
  constructor
  · rintro ⟨before, after, hsplit, hafter⟩
    obtain ⟨before, rest, hbyTag, rfl, hrest⟩ := List.map_eq_append_iff.1 hsplit
    obtain ⟨e, after, rfl, he, rfl⟩ := List.map_eq_cons_iff.1 hrest
    obtain ⟨htext, hrow⟩ := Prod.mk.inj he
    refine ⟨before, e, after, hbyTag, htext, hrow.symm, fun e' he' => ?_⟩
    exact hafter _ (List.mem_map_of_mem he')
  · rintro ⟨before, e, after, hbyTag, rfl, rfl, hafter⟩
    refine ⟨before.map rowOf, after.map rowOf, ?_, ?_⟩
    · rw [hbyTag, List.map_append, List.map_cons]
      rfl
    · rintro _ hmem
      obtain ⟨e', he', rfl⟩ := List.mem_map.1 hmem
      exact hafter e' he'

namespace Metric

variable {log : List Sample} {r : Recorder} {rep : RunReport}

/-- Tags are in ascending order, so each is there once. -/
theorem byTag_ascending (r : Recorder) :
    r.byTag.Pairwise fun e e' => compare e.1 e'.1 = .lt := by
  rw [byTag_eq, List.pairwise_map]
  exact tags_ascending r

/-- Whether some sample of a log carries a tag. -/
def Seen (log : List Sample) (t : Tag) : Prop := ∃ s ∈ log, s.Carries t

/-- There are figures only of tags that were recorded. -/
theorem Recorded.mem_byTag_seen (h : Recorded log r) {e : Tag × Stats} (he : e ∈ r.byTag) :
    Seen log e.1 :=
  h.mem_tags.1 (mem_byTag.1 he).1

/-- There are figures of each tag that was recorded. -/
theorem Recorded.byTag_of_seen (h : Recorded log r) {t : Tag} (ht : Seen log t) :
    (t, r.figuresOf t) ∈ r.byTag :=
  mem_byTag.2 ⟨h.mem_tags.2 ht, rfl⟩

/-- In a list in the order of its tags the last one with a text is the greatest one. -/
theorem last_iff_greatest {l : List (Tag × Stats)}
    (hl : l.Pairwise fun e e' => compare e.1 e'.1 = .lt) {text : String} {e : Tag × Stats} :
    (∃ before after, l = before ++ e :: after ∧ ∀ e' ∈ after, e'.1.text ≠ text) ↔
      e ∈ l ∧ ∀ e' ∈ l, e'.1.text = text → (compare e'.1 e.1).isLE := by
  constructor
  · rintro ⟨before, after, rfl, hafter⟩
    refine ⟨by simp, fun e' he' htext => ?_⟩
    rcases List.mem_append.1 he' with hbefore | hrest
    · rw [(List.pairwise_append.1 hl).2.2 e' hbefore e List.mem_cons_self]
      rfl
    · rcases List.mem_cons.1 hrest with rfl | hmem
      · have hself : compare e'.1 e'.1 = .eq := ReflCmp.compare_self
        rw [hself]
        rfl
      · exact absurd htext (hafter e' hmem)
  · rintro ⟨he, hgreatest⟩
    obtain ⟨before, after, rfl⟩ := List.append_of_mem he
    refine ⟨before, after, rfl, fun e' he' htext => ?_⟩
    have hle := hgreatest e' (by simp [he']) htext
    have hlt : compare e.1 e'.1 = .lt :=
      (List.pairwise_cons.1 (List.pairwise_append.1 hl).2.1).1 e' he'
    rw [← OrientedCmp.gt_iff_lt] at hlt
    rw [hlt] at hle
    cases hle

/-- The rows are kept if no two of the tags have one text. -/
theorem Recorded.keepsRows_iff (h : Recorded log r) (hrep : rep.byTag = r.byTag) :
    rep.KeepsRows ↔ ∀ a b, Seen log a → Seen log b → a.text = b.text → a = b := by
  have htexts : (rep.byTag.map fun e => e.1.text) = r.tags.map Tag.text := by
    rw [hrep, Recorder.tags, List.map_map]
    rfl
  constructor
  · intro hkeeps a b ha hb
    have hnodup := rep.size_rows_iff.1 hkeeps.size
    rw [htexts] at hnodup
    exact List.inj_on_of_nodup_map hnodup (h.mem_tags.2 ha) (h.mem_tags.2 hb)
  · intro hinj
    have hnodup : (rep.byTag.map fun e => e.1.text).Nodup := by
      rw [htexts]
      refine (nodup_tags r).map_on fun a ha b hb => ?_
      exact hinj a b (h.mem_tags.1 ha) (h.mem_tags.1 hb)
    refine ⟨rep.size_rows_iff.2 hnodup, fun e he => RunReport.get?_row.2 ?_⟩
    obtain ⟨before, after, hsplit⟩ := List.append_of_mem he
    refine ⟨before, e, after, hsplit, rfl, rfl, fun e' he' htext => ?_⟩
    -- The texts before and behind an entry differ from its own.
    rw [hsplit, List.map_append, List.map_cons, List.nodup_append] at hnodup
    have hrest := (List.nodup_cons.1 hnodup.2.1).1
    exact hrest (List.mem_map.2 ⟨e', he', htext⟩)

/-- **What a summary keeps of the figures of the tags.**  Whatever was recorded:

* the row at a text is that of the greatest one of the tags with this text, and there is one at the
  text of each tag;
* each tag has its row, and each row its tag, exactly if no tag has a piece of another one's value
  in its key, which is how two tags may have one text;
* so nothing is lost as long as no key has an equals sign. -/
theorem Recorded.summary_rows (h : Recorded log r) (hrep : rep.byTag = r.byTag) :
    (∀ text row, rep.summary.tags.get? text = some row ↔
      ∃ e ∈ rep.byTag, e.1.text = text ∧ row = .of e.2 ∧
        ∀ e' ∈ rep.byTag, e'.1.text = text → (compare e'.1 e.1).isLE) ∧
      (∀ e ∈ rep.byTag, (rep.summary.tags.get? e.1.text).isSome) ∧
      (rep.KeepsRows ↔ ∀ a b, Seen log a → Seen log b → ¬a.Slides b) ∧
      ((∀ t, Seen log t → '=' ∉ t.key.toList) → rep.KeepsRows) := by
  have hsorted : rep.byTag.Pairwise fun e e' => compare e.1 e'.1 = .lt := by
    rw [hrep]
    exact byTag_ascending r
  -- Two tags have the same text only if one is the other with its mark moved.
  have hkeeps : rep.KeepsRows ↔ ∀ a b, Seen log a → Seen log b → ¬a.Slides b := by
    rw [h.keepsRows_iff hrep]
    constructor
    · intro hinj a b ha hb hslides
      exact hslides.ne (hinj a b ha hb hslides.text_eq)
    · intro hfree a b ha hb htext
      rcases Tag.text_eq_iff.1 htext with heq | hslides | hslides
      · exact heq
      · exact absurd hslides (hfree a b ha hb)
      · exact absurd hslides (hfree b a hb ha)
  refine ⟨fun text row => ?_, fun e he => ?_, hkeeps,
    fun hplain => hkeeps.2 fun a b _ hb hslides => ?_⟩
  -- The row that is kept under a text is the last one with it, and that is the greatest tag.
  · rw [RunReport.get?_row]
    constructor
    · rintro ⟨before, e, after, hsplit, htext, hrow, hafter⟩
      obtain ⟨he, hgreatest⟩ := (last_iff_greatest hsorted).1 ⟨before, after, hsplit, hafter⟩
      exact ⟨e, he, htext, hrow, hgreatest⟩
    · rintro ⟨e, he, htext, hrow, hgreatest⟩
      obtain ⟨before, after, hsplit, hafter⟩ := (last_iff_greatest hsorted).2 ⟨he, hgreatest⟩
      exact ⟨before, e, after, hsplit, htext, hrow, hafter⟩
  · rw [Option.isSome_iff_exists, ← SortedMap.mem_keys, rep.summary_tags, SortedMap.mem_keys_ofList,
      map_text_rowOf]
    exact List.mem_map_of_mem he
  · exact hplain b hb hslides.mem_key

/-- A sample with one tag carries no other one. -/
theorem carries_single {s : Sample} {t t' : Tag}
    (htags : s.tags = SortedMap.empty.insert t.key t.value) : s.Carries t' ↔ t' = t := by
  rw [Sample.Carries, htags, SortedMap.get?_insert]
  obtain ⟨key, value⟩ := t
  obtain ⟨key', value'⟩ := t'
  by_cases hkey : key' = key
  · simp [hkey, eq_comm]
  · simp [hkey, SortedMap.get?, SortedMap.search, SortedMap.empty]

/-- Two requests, each tagged with what the other one's tag is written like.  The first one, which
was answered, is not in the summary. -/
theorem summary_rows_collision :
    let a : Tag := ⟨"a", "b=c"⟩
    let b : Tag := ⟨"a=b", "c"⟩
    let sent : Sample :=
      ⟨SortedMap.empty.insert a.key a.value, .zero, .millis 2, .success, some 200⟩
    let lost : Sample :=
      ⟨SortedMap.empty.insert b.key b.value, .millis 5, .millis 3, .failure, none⟩
    let r := (Recorder.empty.record sent).record lost
    let rep : RunReport := .of "run" "nightly" 0 "http://localhost:8080" [] r [] none
    Recorded [sent, lost] r ∧ rep.byTag = r.byTag ∧ a ≠ b ∧ (a, r.figuresOf a) ∈ rep.byTag ∧
      (b, r.figuresOf b) ∈ rep.byTag ∧ ¬rep.KeepsRows ∧
      rep.summary.tags.get? a.text = some (.of (r.figuresOf b)) ∧
      (r.figuresOf a).failures = 0 ∧ (r.figuresOf b).failures = 1 := by
  intro a b sent lost r rep
  have h : Recorded [sent, lost] r := (Recorded.empty.record sent).record lost
  have ha : Seen [sent, lost] a := ⟨sent, by simp, by decide +kernel⟩
  have hb : Seen [sent, lost] b := ⟨lost, by simp, by decide +kernel⟩
  have hslides : a.Slides b := ⟨"b", by decide, by decide⟩
  have hrep : rep.byTag = r.byTag := rfl
  obtain ⟨hrow, -, hkeeps, -⟩ := h.summary_rows hrep
  refine ⟨h, hrep, hslides.ne, h.byTag_of_seen ha, h.byTag_of_seen hb,
    fun hrows => hkeeps.1 hrows a b ha hb hslides, ?_, by decide +kernel, by decide +kernel⟩
  refine (hrow _ _).2 ⟨(b, r.figuresOf b), h.byTag_of_seen hb, hslides.text_eq.symm, rfl, ?_⟩
  rintro e he -
  -- No tag but these two was seen, and the key of the second one is the longer one.
  obtain ⟨s, hs, hcarries⟩ := h.mem_byTag_seen he
  have hsent : s = sent ∨ s = lost := by simpa using hs
  rcases hsent with rfl | rfl
  · rw [(carries_single rfl).1 hcarries]
    decide
  · rw [(carries_single rfl).1 hcarries]
    decide

end Metric

end LoadReplay
