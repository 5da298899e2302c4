import LoadReplay.Proofs.Histogram
import LoadReplay.Proofs.JsonReading
import LoadReplay.Proofs.Plans
import LoadReplay.Summary.File

/-!
# Records of summaries are read again

A record is written with all of its fields, in the order in which the reader lists their names, so
the reader finds every field under its name (`allFields_record`).  What is read from a field is then
a matter of the field alone: texts, counts, truth values, numbers that may be absent, lists, and the
figures of each tag, whose keys come in order and only once (`ofList_entries`).

Main statement: `RunSummary.readChars_chars`.
-/

namespace LoadReplay

open Document Json

/-- The entries of a map make up the same map. -/
theorem SortedMap.ofList_entries {κ ν : Type} [Ord κ] [Std.TransOrd κ] [Std.LawfulEqOrd κ]
    [DecidableEq κ] (m : SortedMap κ ν) : SortedMap.ofList m.entries = m := by
  apply SortedMap.ext_get?
  intro k
  have hfold := SortedMap.get?_foldl_insert k m.entries .empty m.ascending
  rw [SortedMap.ofList, hfold]
  exact Option.or_none

/-! ## Documents of JSON values -/

namespace Document

/-- The items of a list are read one by one. -/
theorem ofJsonItems_eq (l : List Value) : Tree.ofJsonItems l = l.map Tree.ofJson := by
  induction l with
  | nil => rfl
  | cons v l ih => rw [Tree.ofJsonItems, ih, List.map_cons]

/-- So are the entries of a record. -/
theorem ofJsonEntries_eq (l : List (Json.Text × Value)) :
    Tree.ofJsonEntries l = l.map fun e => (.scalar (.ofJsonText e.1), Tree.ofJson e.2) := by
  induction l with
  | nil => rfl
  | cons e l ih => rw [Tree.ofJsonEntries, ih, List.map_cons]

/-- Fields that are all known and differ are all kept. -/
theorem ofEntries_eq_ok {names : List String} {entries : List (String × Tree)}
    (hknown : ∀ e ∈ entries, e.1 ∈ names) (hdiffer : (entries.map (·.1)).Nodup) :
    Fields.ofEntries names entries = .ok entries := by
  induction entries with
  | nil => rfl
  | cons e entries ih =>
    obtain ⟨k, t⟩ := e
    obtain ⟨hk, hknown⟩ := List.forall_mem_cons.1 hknown
    obtain ⟨hnew, hdiffer⟩ := List.nodup_cons.1 hdiffer
    -- Entries are kept from the last one on, so the others are known to be kept already.
    have hany : ¬entries.any (·.1 == k) = true := by
      intro hany
      obtain ⟨e, he, heq⟩ := List.any_eq_true.1 hany
      rw [beq_iff_eq] at heq
      have hmem : e.1 ∈ entries.map (·.1) := List.mem_map_of_mem he
      rw [heq] at hmem
      exact hnew hmem
    have hrest := ih hknown hdiffer
    unfold Fields.ofEntries
    rw [hrest]
    dsimp only [bind, Except.bind]
    rw [if_pos hk, if_neg hany]

/-- The entries of a record, by the names of their fields. -/
theorem mapM_fieldName (names : List String) (fields : List (String × Value)) :
    (fields.map fun e => (Tree.scalar (.ofJsonText (some e.1)), Tree.ofJson e.2)).mapM
        (fun e => (do return (← fieldName names e.1, e.2) : Decoded (String × Tree)))
      = .ok (fields.map fun e => (e.1, Tree.ofJson e.2)) :=
  mapM_map_eq_ok fun _ _ => rfl

/-- The reader of a record finds every field under its name. -/
theorem allFields_record (names : List String) (fields : List (String × Value))
    (hnames : fields.map (·.1) = names) (hdiffer : names.Nodup) :
    Tree.allFields names (Tree.ofJson (.record (fields.map fun e => field e.1 e.2))) =
      .ok (fields.map fun e => (e.1, Tree.ofJson e.2)) := by
  have hkeys : (fields.map fun e => (e.1, Tree.ofJson e.2)).map (·.1) = names := by
    rw [List.map_map]
    exact hnames
  have hkept : Fields.ofEntries names (fields.map fun e => (e.1, Tree.ofJson e.2))
      = .ok (fields.map fun e => (e.1, Tree.ofJson e.2)) := by
    apply ofEntries_eq_ok
    · intro e he
      rw [← hkeys]
      exact List.mem_map_of_mem he
    · rw [hkeys]
      exact hdiffer
  rw [Tree.ofJson, ofJsonEntries_eq, List.map_map]
  exact (congrArg (· >>= Fields.ofEntries names) (mapM_fieldName names fields)).trans hkept

end Document

/-! ## Values that are read from fields -/

/-- Every text is legible. -/
theorem legible_ofString (s : String) : (Value.ofString s).Legible :=
  List.forall_mem_singleton.2 rfl

/-- So is every truth value. -/
theorem legible_truth (b : Bool) : (Value.truth b).Legible := List.forall_mem_singleton.2 trivial

/-- So is every number of 64 bits. -/
theorem legible_ofNat {n : Nat} (h : n < Nat.pow 2 64) : (Value.ofNat n).Legible :=
  List.forall_mem_singleton.2 (Numeral.readsBack_count h)

/-- Whether a number is absent, or finite and read from its own text. -/
def ReadsBack? (x : Option Float) : Prop := ∀ y ∈ x, isFinite y = true ∧ (Numeral.real y).ReadsBack

/-- So is a number that is read back, or none. -/
theorem legible_ofFloat? {x : Option Float} (h : ReadsBack? x) : (Value.ofFloat? x).Legible := by
  cases x with
  | none => exact List.forall_mem_singleton.2 trivial
  | some y =>
    obtain ⟨hfinite, hback⟩ := h y rfl
    rw [Value.ofFloat?, Value.ofFloat, if_pos hfinite]
    exact List.forall_mem_singleton.2 hback

/-- A number that may be absent is read as it is. -/
theorem optional_ofFloat? {x : Option Float} (h : ReadsBack? x) :
    Tree.optional Tree.number (Tree.ofJson (.ofFloat? x)) = .ok x := by
  cases x with
  | none => rfl
  | some y =>
    rw [Value.ofFloat?, Value.ofFloat, if_pos (h y rfl).1]
    rfl

/-- Whether a whole number fits in 64 bits with a sign. -/
def Whole64 (i : Int) : Prop := -(Nat.pow 2 63 : Nat) ≤ i ∧ i < (Nat.pow 2 63 : Nat)

/-- So is every whole number of 64 bits with its sign. -/
theorem legible_wholeValue {i : Int} (h : Whole64 i) : (wholeValue i).Legible := by
  cases i with
  | ofNat n =>
    have hn : n < Nat.pow 2 63 := Int.ofNat_lt.1 h.2
    exact legible_ofNat (Nat.lt_trans hn (by decide))
  | negSucc n =>
    have hn : n + 1 ≤ Nat.pow 2 63 := by
      have hlow := h.1
      omega
    exact List.forall_mem_singleton.2 (Numeral.readsBack_negative (Nat.succ_ne_zero n) hn)

/-- It is read as the number that it was. -/
theorem whole_wholeValue {i : Int} (h : Whole64 i) :
    Tree.whole (Tree.ofJson (wholeValue i)) = .ok i := by
  cases i with
  | ofNat n =>
    have hn : n < Nat.pow 2 63 := Int.ofNat_lt.1 h.2
    change need (if n < Nat.pow 2 63 then some (n : Int) else none) = _
    rw [if_pos hn]
    rfl
  | negSucc n => rfl

/-! ## Records -/

namespace ScenarioSummary

/-- The fields of a scenario as they are written. -/
def fields (s : ScenarioSummary) : List (String × Value) :=
  [("name", .ofString s.name), ("executor", .ofString s.executor),
    ("iterations", .ofNat s.iterations), ("peak_vus", .ofNat s.peakVus),
    ("interrupted", .truth s.interrupted)]

/-- Whether the counts of a scenario take no more than 64 bits. -/
structure Fits (s : ScenarioSummary) : Prop where
  iterations : s.iterations < Nat.pow 2 64
  peakVus : s.peakVus < Nat.pow 2 64

/-- The row of a scenario is legible, -/
theorem legible_encode {s : ScenarioSummary} (h : s.Fits) : s.encode.Legible := by
  refine legible_record.2 ?_
  simp only [List.forall_mem_cons]
  exact ⟨⟨rfl, legible_ofString _⟩, ⟨rfl, legible_ofString _⟩, ⟨rfl, legible_ofNat h.iterations⟩,
    ⟨rfl, legible_ofNat h.peakVus⟩, ⟨rfl, legible_truth _⟩, List.forall_mem_nil _⟩

/-- and it is read as what it was. -/
theorem decode_encode (s : ScenarioSummary) : decode (Tree.ofJson s.encode) = .ok s := by
  have hfields := allFields_record ["name", "executor", "iterations", "peak_vus", "interrupted"]
    s.fields rfl (by decide)
  exact bind_eq_ok.2 ⟨_, hfields, rfl⟩

end ScenarioSummary

namespace FigureSummary

/-- The fields of figures as they are written. -/
def fields (s : FigureSummary) : List (String × Value) :=
  [("count", .ofNat s.count), ("failures", .ofNat s.failures), ("avg_ms", .ofFloat? s.avgMs),
    ("p50_ms", .ofFloat? s.p50Ms), ("p90_ms", .ofFloat? s.p90Ms), ("p95_ms", .ofFloat? s.p95Ms),
    ("p99_ms", .ofFloat? s.p99Ms), ("max_ms", .ofFloat? s.maxMs)]

/-- Whether the counts of figures take no more than 64 bits and their numbers are read back. -/
structure Fits (s : FigureSummary) : Prop where
  count : s.count < Nat.pow 2 64
  failures : s.failures < Nat.pow 2 64
  numbers : ∀ x ∈ [s.avgMs, s.p50Ms, s.p90Ms, s.p95Ms, s.p99Ms, s.maxMs], ReadsBack? x

/-- The row of a tag is legible if its figures are read back, -/
theorem legible_encode {s : FigureSummary} (h : s.Fits) : s.encode.Legible := by
  have hnumbers := h.numbers
  simp only [List.forall_mem_cons] at hnumbers
  obtain ⟨havg, hp50, hp90, hp95, hp99, hmax, -⟩ := hnumbers
  refine legible_record.2 ?_
  simp only [List.forall_mem_cons]
  exact ⟨⟨rfl, legible_ofNat h.count⟩, ⟨rfl, legible_ofNat h.failures⟩,
    ⟨rfl, legible_ofFloat? havg⟩, ⟨rfl, legible_ofFloat? hp50⟩, ⟨rfl, legible_ofFloat? hp90⟩,
    ⟨rfl, legible_ofFloat? hp95⟩, ⟨rfl, legible_ofFloat? hp99⟩, ⟨rfl, legible_ofFloat? hmax⟩,
    List.forall_mem_nil _⟩

/-- and then it is read as what it was. -/
theorem decode_encode {s : FigureSummary} (h : s.Fits) :
    decode (Tree.ofJson s.encode) = .ok s := by
  have hfields := allFields_record
    ["count", "failures", "avg_ms", "p50_ms", "p90_ms", "p95_ms", "p99_ms", "max_ms"]
    s.fields rfl (by decide)
  have hnumbers := h.numbers
  simp only [List.forall_mem_cons] at hnumbers
  obtain ⟨havg, hp50, hp90, hp95, hp99, hmax, -⟩ := hnumbers
  refine bind_eq_ok.2 ⟨_, hfields, ?_⟩
  refine bind_eq_ok.2 ⟨s.count, rfl, ?_⟩
  refine bind_eq_ok.2 ⟨s.failures, rfl, ?_⟩
  refine bind_eq_ok.2 ⟨s.avgMs, optional_ofFloat? havg, ?_⟩
  refine bind_eq_ok.2 ⟨s.p50Ms, optional_ofFloat? hp50, ?_⟩
  refine bind_eq_ok.2 ⟨s.p90Ms, optional_ofFloat? hp90, ?_⟩
  refine bind_eq_ok.2 ⟨s.p95Ms, optional_ofFloat? hp95, ?_⟩
  refine bind_eq_ok.2 ⟨s.p99Ms, optional_ofFloat? hp99, ?_⟩
  exact bind_eq_ok.2 ⟨s.maxMs, optional_ofFloat? hmax, rfl⟩

end FigureSummary

namespace ThresholdSummary

/-- The fields of a threshold as they are written. -/
def fields (s : ThresholdSummary) : List (String × Value) :=
  [("rule", .ofString s.rule), ("observed", .ofFloat? s.observed), ("status", .ofString s.status)]

/-- The row of a rule is legible if what was observed is read back, -/
theorem legible_encode {s : ThresholdSummary} (h : ReadsBack? s.observed) : s.encode.Legible := by
  refine legible_record.2 ?_
  simp only [List.forall_mem_cons]
  exact ⟨⟨rfl, legible_ofString _⟩, ⟨rfl, legible_ofFloat? h⟩, ⟨rfl, legible_ofString _⟩,
    List.forall_mem_nil _⟩

/-- and then it is read as what it was. -/
theorem decode_encode {s : ThresholdSummary} (h : ReadsBack? s.observed) :
    decode (Tree.ofJson s.encode) = .ok s := by
  have hfields := allFields_record ["rule", "observed", "status"] s.fields rfl (by decide)
  refine bind_eq_ok.2 ⟨_, hfields, ?_⟩
  refine bind_eq_ok.2 ⟨s.rule, rfl, ?_⟩
  exact bind_eq_ok.2 ⟨s.observed, optional_ofFloat? h, rfl⟩

end ThresholdSummary

/-! ## Lists of records, and figures by tag -/

/-- A list is read item by item. -/
theorem listOf_map {α : Type} {encode : α → Value} {decode : Tree → Decoded α} {l : List α}
    (h : ∀ a ∈ l, decode (Tree.ofJson (encode a)) = .ok a) :
    Tree.listOf decode (Tree.ofJson (.list (l.map encode))) = .ok l := by
  have hitems : Tree.ofJson (.list (l.map encode))
      = .list (l.map fun a => Tree.ofJson (encode a)) .exactly := by
    rw [Tree.ofJson, ofJsonItems_eq, List.map_map]
    rfl
  have hread : (l.map fun a => Tree.ofJson (encode a)).mapM decode = .ok (l.map id) :=
    mapM_map_eq_ok h
  rw [hitems]
  rw [List.map_id] at hread
  exact hread

/-- A table is read entry by entry. -/
theorem mapOf_entries {α : Type} {encode : α → Value} {decode : Tree → Decoded α}
    {m : SortedMap String α} (h : ∀ e ∈ m.entries, decode (Tree.ofJson (encode e.2)) = .ok e.2) :
    Tree.mapOf decode (Tree.ofJson (.record (m.entries.map fun e => field e.1 (encode e.2))))
      = .ok m := by
  have hentries : Tree.ofJson (.record (m.entries.map fun e => field e.1 (encode e.2)))
      = .record (m.entries.map fun e =>
          (.scalar (.ofJsonText (some e.1)), Tree.ofJson (encode e.2))) := by
    rw [Tree.ofJson, ofJsonEntries_eq, List.map_map]
    rfl
  have hread : (m.entries.map fun e =>
        (Tree.scalar (.ofJsonText (some e.1)), Tree.ofJson (encode e.2))).mapM
      (fun e => (do return (← e.1.text, ← decode e.2) : Decoded (String × α)))
      = .ok (m.entries.map id) := by
    refine mapM_map_eq_ok fun e he => ?_
    exact bind_eq_ok.2 ⟨e.1, rfl, bind_eq_ok.2 ⟨e.2, h e he, rfl⟩⟩
  rw [List.map_id] at hread
  rw [hentries]
  refine bind_eq_ok.2 ⟨_, rfl, bind_eq_ok.2 ⟨_, hread, ?_⟩⟩
  exact congrArg Except.ok (SortedMap.ofList_entries m)

namespace RunSummary

/-- The fields of a summary as they are written. -/
def fields (s : RunSummary) : List (String × Value) :=
  [("run_id", .ofString s.runId), ("run_name", .ofString s.runName),
    ("started_at", wholeValue s.startedAt), ("target", .ofString s.target),
    ("scenarios", .list (s.scenarios.map ScenarioSummary.encode)),
    ("tags", .record (s.tags.entries.map fun e => field e.1 e.2.encode)),
    ("total", s.total.encode), ("thresholds", .list (s.thresholds.map ThresholdSummary.encode)),
    ("verdict", .ofString s.verdict), ("gale_version", .ofString s.version)]

/-- Whether a summary can be written without loss: its whole numbers take no more than 64 bits, and
each of its numbers is absent, or finite and read from its own text. -/
structure Fits (s : RunSummary) : Prop where
  startedAt : Whole64 s.startedAt
  scenarios : ∀ c ∈ s.scenarios, c.Fits
  tags : ∀ e ∈ s.tags.entries, e.2.Fits
  total : s.total.Fits
  thresholds : ∀ t ∈ s.thresholds, ReadsBack? t.observed

/-- A summary whose figures are read back is legible, -/
theorem legible_encode {s : RunSummary} (h : s.Fits) : s.encode.Legible := by
  have hscenarios : (Value.list (s.scenarios.map ScenarioSummary.encode)).Legible := by
    refine legible_list.2 (List.forall_mem_map.2 fun c hc => ?_)
    exact ScenarioSummary.legible_encode (h.scenarios c hc)
  have htags : (Value.record (s.tags.entries.map fun e => field e.1 e.2.encode)).Legible := by
    refine legible_record.2 (List.forall_mem_map.2 fun e he => ⟨rfl, ?_⟩)
    exact FigureSummary.legible_encode (h.tags e he)
  have hthresholds : (Value.list (s.thresholds.map ThresholdSummary.encode)).Legible := by
    refine legible_list.2 (List.forall_mem_map.2 fun t ht => ?_)
    exact ThresholdSummary.legible_encode (h.thresholds t ht)
  refine legible_record.2 ?_
  simp only [List.forall_mem_cons]
  exact ⟨⟨rfl, legible_ofString _⟩, ⟨rfl, legible_ofString _⟩,
    ⟨rfl, legible_wholeValue h.startedAt⟩, ⟨rfl, legible_ofString _⟩, ⟨rfl, hscenarios⟩,
    ⟨rfl, htags⟩, ⟨rfl, FigureSummary.legible_encode h.total⟩, ⟨rfl, hthresholds⟩,
    ⟨rfl, legible_ofString _⟩, ⟨rfl, legible_ofString _⟩, List.forall_mem_nil _⟩

/-- and **it is read as what it was**. -/
theorem decode_encode {s : RunSummary} (h : s.Fits) : decode (Tree.ofJson s.encode) = .ok s := by
  have hfields := allFields_record names s.fields rfl (by decide)
  refine bind_eq_ok.2 ⟨_, hfields, ?_⟩
  -- Field by field; looking a name up among the fields is plain evaluation.
  refine bind_eq_ok.2 ⟨s.runId, rfl, ?_⟩
  refine bind_eq_ok.2 ⟨s.runName, rfl, ?_⟩
  refine bind_eq_ok.2 ⟨s.startedAt, whole_wholeValue h.startedAt, ?_⟩
  refine bind_eq_ok.2 ⟨s.target, rfl, ?_⟩
  refine bind_eq_ok.2 ⟨s.scenarios, listOf_map fun c _ => c.decode_encode, ?_⟩
  refine bind_eq_ok.2 ⟨s.tags, mapOf_entries fun e he =>
    FigureSummary.decode_encode (h.tags e he), ?_⟩
  refine bind_eq_ok.2 ⟨s.total, FigureSummary.decode_encode h.total, ?_⟩
  refine bind_eq_ok.2 ⟨s.thresholds, listOf_map fun t ht =>
    ThresholdSummary.decode_encode (h.thresholds t ht), ?_⟩
  exact bind_eq_ok.2 ⟨s.verdict, rfl, bind_eq_ok.2 ⟨s.version, rfl, rfl⟩⟩

/-- A summary is read from its own text. -/
theorem readChars_chars {s : RunSummary} (h : s.Fits) : readChars s.encode.chars = .ok s := by
  refine bind_eq_ok.2 ⟨Tree.ofJson s.encode, ?_, decode_encode h⟩
  rw [Tree.readJson, read_chars (legible_encode h)]
  rfl

end RunSummary

end LoadReplay
