import LoadReplay.Proofs.SummaryRecords
import LoadReplay.Proofs.Trimming
import LoadReplay.Summary.Store

/-!
# Files of summaries are read again

The line of a summary holds no line break and is not blank, so the lines of a file are the lines
that were added to it (`textLines_cons`).  Adding a line makes the file if need be, and changes
nothing else: directories stay directories, and the path leads to the same file (`append_eq_ok`).

A file that is not there stays away until something is added to it, and is not taken for an empty
one.

Main statement: `Store.Files.loadSummaries_appendSummaries`.
-/

namespace LoadReplay

open Json

/-! ## Lines -/

/-- A line that is not blank is the first line of a text that begins with it. -/
theorem textLines_cons {line : List Char} {c : Char} (hbreak : '\n' ∉ line) (hc : c ∈ line)
    (hblank : Text.isBlank c = false) (rest : List Char) :
    textLines (line ++ '\n' :: rest) = line :: textLines rest := by
  have hvisible : (!(Text.trim line).isEmpty) = true := by
    rw [List.isEmpty_eq_false_iff.2 (List.ne_nil_of_mem (Text.mem_trim hc hblank))]
    rfl
  rw [textLines, Text.splitAll_append hbreak]
  exact List.filter_cons_of_pos hvisible

namespace RunSummary

/-- A summary is written in one line. -/
theorem textLines_chars {s : RunSummary} (h : s.Fits) (rest : List Char) :
    textLines (s.encode.chars ++ '\n' :: rest) = s.encode.chars :: textLines rest := by
  have hbreak : '\n' ∉ s.encode.chars := newline_not_mem_chars_value (legible_encode h)
  -- The brace that a record begins with keeps the line from being blank.
  have hbrace : '\x7b' ∈ s.encode.chars := List.mem_cons_self
  exact textLines_cons hbreak hbrace rfl rest

end RunSummary

/-- The text of a file that some summaries were added to one after another. -/
theorem toList_foldl_appendSummary (text : String) (l : List RunSummary) :
    (l.foldl appendSummary text).toList =
      text.toList ++ l.flatMap fun s => s.encode.chars ++ ['\n'] := by
  induction l generalizing text with
  | nil => rw [List.foldl_nil, List.flatMap_nil, List.append_nil]
  | cons s l ih =>
    have hfirst : (appendSummary text s).toList = text.toList ++ (s.encode.chars ++ ['\n']) := by
      rw [appendSummary, String.toList_append, String.toList_append, RunSummary.line, Value.write,
        String.toList_ofList, List.append_assoc]
      rfl
    rw [List.foldl_cons, ih, hfirst, List.append_assoc, List.flatMap_cons]

/-- What was added to an empty file one after another is read from it in this order. -/
theorem readSummaries_foldl {l : List RunSummary} (h : ∀ s ∈ l, s.Fits) :
    readSummaries (l.foldl appendSummary "") = .ok l := by
  have hlines : textLines (l.flatMap fun s => s.encode.chars ++ ['\n'])
      = l.map fun s => s.encode.chars := by
    induction l with
    | nil => rfl
    | cons s l ih =>
      obtain ⟨hs, hl⟩ := List.forall_mem_cons.1 h
      rw [List.flatMap_cons, List.append_assoc, List.singleton_append, s.textLines_chars hs, ih hl,
        List.map_cons]
  have hread := mapM_map_eq_ok (h := id) fun s hs => RunSummary.readChars_chars (h s hs)
  rw [List.map_id] at hread
  rw [readSummaries, toList_foldl_appendSummary]
  change (textLines (l.flatMap fun s => s.encode.chars ++ ['\n'])).mapM RunSummary.readChars = _
  rw [hlines]
  exact hread

/-! ## Adding to a file -/

namespace Store.Files

variable {f g : Files} {path : String} {names : List String}

/-- Whether a path leads to a file, or to where one can be made. -/
structure Writable (f : Files) (path : String) (names : List String) : Prop where
  located : f.locate path = .ok names
  noDirectory : f.isDirectory names = false
  parent : f.isDirectory names.dropLast = true

/-- Paths lead to the same places as long as the directories stay. -/
theorem follow_eq_ok (hdirectories : ∀ d, g.isDirectory d = f.isDirectory d) {here : List String}
    {path : List String} (h : f.follow here path = .ok names) : g.follow here path = .ok names := by
  induction path generalizing here with
  | nil => exact h
  | cons name rest ih =>
    unfold follow at h ⊢
    rw [hdirectories]
    split at h
    · cases h
    · rename_i hhere
      rw [if_neg hhere]
      split at h
      · rename_i hname
        rw [if_pos hname]
        split at h
        · cases h
        · rename_i hroot
          rw [if_neg hroot]
          exact ih h
      · rename_i hname
        rw [if_neg hname]
        exact ih h

/-- A path leads to the same place while the directories stay as they are. -/
theorem locate_eq_ok (hdirectories : ∀ d, g.isDirectory d = f.isDirectory d)
    (hroot : g.root = f.root) (h : f.locate path = .ok names) : g.locate path = .ok names := by
  unfold locate at h ⊢
  rw [hroot]
  split at h
  · cases h
  · exact follow_eq_ok hdirectories h

/-- So it can still be written to. -/
theorem Writable.of_directories (h : f.Writable path names)
    (hdirectories : ∀ d, g.isDirectory d = f.isDirectory d) (hroot : g.root = f.root) :
    g.Writable path names where
  located := locate_eq_ok hdirectories hroot h.located
  noDirectory := (hdirectories _).trans h.noDirectory
  parent := (hdirectories _).trans h.parent

/-- A directory is the root, or something lies in it. -/
theorem isDirectory_iff {d : List String} :
    f.isDirectory d = true ↔ d = [] ∨ ∃ e ∈ f.entries, d.length < e.1.length ∧ d <+: e.1 := by
  simp only [isDirectory, Bool.or_eq_true, List.isEmpty_iff, List.any_eq_true, Bool.and_eq_true,
    decide_eq_true_eq, List.isPrefixOf_iff_prefix]

/-- A directory lies in directories. -/
theorem isDirectory_of_prefix {d d' : List String} (h : f.isDirectory d' = true) (hd : d <+: d') :
    f.isDirectory d = true := by
  rcases isDirectory_iff.1 h with rfl | ⟨e, he, hlen, hprefix⟩
  · exact isDirectory_iff.2 (.inl (List.prefix_nil.1 hd))
  · have hle := hd.length_le
    exact isDirectory_iff.2 (.inr ⟨e, he, by omega, hd.trans hprefix⟩)

/-- A change of the texts of files leaves the directories. -/
theorem isDirectory_of_keys (h : g.entries.map (·.1) = f.entries.map (·.1)) (d : List String) :
    g.isDirectory d = f.isDirectory d := by
  have hany : ∀ f : Files, (f.entries.any fun e => d.length < e.1.length && d.isPrefixOf e.1)
      = (f.entries.map (·.1)).any fun k => d.length < k.length && d.isPrefixOf k := by
    intro f
    rw [List.any_map]
    rfl
  unfold isDirectory
  rw [hany, hany, h]

/-- A new file in a directory makes no other directory. -/
theorem isDirectory_of_new (hparent : f.isDirectory names.dropLast = true) {text : String}
    (hentries : g.entries = f.entries ++ [(names, text)]) (d : List String) :
    g.isDirectory d = f.isDirectory d := by
  rw [Bool.eq_iff_iff]
  constructor
  · intro h
    rcases isDirectory_iff.1 h with rfl | ⟨e, he, hlen, hprefix⟩
    · exact isDirectory_iff.2 (.inl rfl)
    · rw [hentries, List.mem_append, List.mem_singleton] at he
      rcases he with he | rfl
      · exact isDirectory_iff.2 (.inr ⟨e, he, hlen, hprefix⟩)
      · -- What the new file makes a directory is one above it, and the one it lies in was there.
        apply isDirectory_of_prefix hparent
        apply List.prefix_of_prefix_length_le hprefix (List.dropLast_prefix _)
        rw [List.length_dropLast]
        omega
  · intro h
    rcases isDirectory_iff.1 h with rfl | ⟨e, he, hlen, hprefix⟩
    · exact isDirectory_iff.2 (.inl rfl)
    · refine isDirectory_iff.2 (.inr ⟨e, ?_, hlen, hprefix⟩)
      rw [hentries]
      exact List.mem_append_left _ he

/-- What adding text to a file leaves and what it changes. -/
structure Appended (f : Files) (names : List String) (text : String) (g : Files) : Prop where
  root : g.root = f.root
  directories : ∀ d, g.isDirectory d = f.isDirectory d
  text : g.text? names = some ((f.text? names).getD "" ++ text)
  others : ∀ other, other ≠ names → g.text? other = f.text? other

/-- A file is found behind others. -/
theorem lookup_cons_ne {k other : List String} (h : other ≠ k) (text : String)
    (entries : List (List String × String)) :
    ((k, text) :: entries).lookup other = entries.lookup other := by
  rw [List.lookup_cons, beq_false_of_ne h]

/-- Replacing the text of a file leaves the texts of the others. -/
theorem lookup_replace (names : List String) (entries : List (List String × String))
    (text : String) (other : List String) :
    (entries.map fun e => if e.1 == names then (names, text) else e).lookup other =
      if other = names then (entries.lookup other).map fun _ => text
      else entries.lookup other := by
  induction entries with
  | nil => split <;> rfl
  | cons e entries ih =>
    obtain ⟨k, old⟩ := e
    rw [List.map_cons]
    by_cases hk : k = names
    · subst hk
      rw [if_pos BEq.rfl]
      by_cases hother : other = k
      · subst hother
        rw [List.lookup_cons_self, List.lookup_cons_self, if_pos rfl]
        rfl
      · rw [lookup_cons_ne hother, lookup_cons_ne hother, ih]
    · rw [if_neg fun h => hk (beq_iff_eq.1 h)]
      by_cases hother : other = k
      · subst hother
        rw [List.lookup_cons_self, List.lookup_cons_self, if_neg hk]
      · rw [lookup_cons_ne hother, lookup_cons_ne hother, ih]

/-- Text can be added wherever a file can stand. -/
theorem append_eq_ok (h : f.Writable path names) (text : String) :
    ∃ g, f.append path text = .ok g ∧ f.Appended names text g := by
  -- The file is there and grows, or it is made at the end of the directory.
  cases htext : f.text? names with
  | some old =>
    have happend : f.append path text = .ok ⟨f.root,
        f.entries.map fun e => if e.1 == names then (names, old ++ text) else e⟩ := by
      refine bind_eq_ok.2 ⟨names, h.located, ?_⟩
      dsimp only
      rw [h.noDirectory, h.parent, htext]
      rfl
    have hlookup := lookup_replace names f.entries (old ++ text)
    refine ⟨_, happend, rfl, isDirectory_of_keys ?_, ?_, ?_⟩
    · rw [List.map_map]
      refine List.map_congr_left fun e _ => ?_
      rw [Function.comp_apply]
      split
      · rename_i he
        exact (beq_iff_eq.1 he).symm
      · rfl
    · refine (hlookup names).trans ?_
      rw [if_pos rfl, htext]
      exact congrArg (Option.map fun _ => old ++ text) htext
    · intro other hother
      exact (hlookup other).trans (if_neg hother)
  | none =>
    have happend : f.append path text = .ok ⟨f.root, f.entries ++ [(names, text)]⟩ := by
      refine bind_eq_ok.2 ⟨names, h.located, ?_⟩
      dsimp only
      rw [h.noDirectory, h.parent, htext]
      rfl
    refine ⟨_, happend, rfl, isDirectory_of_new h.parent rfl, ?_, ?_⟩
    · rw [htext]
      change (f.entries ++ [(names, text)]).lookup names = some ("" ++ text)
      rw [List.lookup_append, List.lookup_cons_self, String.empty_append]
      exact congrArg (Option.or · (some text)) htext
    · intro other hother
      change (f.entries ++ [(names, text)]).lookup other = f.entries.lookup other
      rw [List.lookup_append, lookup_cons_ne hother]
      exact Option.or_none

/-- Summaries can be added wherever a file can stand.  The first one makes the file. -/
theorem appendSummaries_eq_ok (h : f.Writable path names) (l : List RunSummary) :
    ∃ g, f.appendSummaries path l = .ok g ∧ g.Writable path names ∧
      (g.text? names = if l = [] then f.text? names
        else some (l.foldl LoadReplay.appendSummary ((f.text? names).getD ""))) ∧
      ∀ other, other ≠ names → g.text? other = f.text? other := by
  induction l generalizing f with
  | nil => exact ⟨f, rfl, h, rfl, fun _ _ => rfl⟩
  | cons s l ih =>
    obtain ⟨f', hfirst, happended⟩ := append_eq_ok h (s.line ++ "\n")
    obtain ⟨g, hrest, hwritable, htext, hothers⟩ :=
      ih (h.of_directories happended.directories happended.root)
    refine ⟨g, bind_eq_ok.2 ⟨f', hfirst, hrest⟩, hwritable, ?_, ?_⟩
    · have hline : (f.text? names).getD "" ++ (s.line ++ "\n")
          = LoadReplay.appendSummary ((f.text? names).getD "") s := by
        rw [LoadReplay.appendSummary, String.append_assoc]
      rw [if_neg (List.cons_ne_nil s l), List.foldl_cons, ← hline, htext, happended.text]
      split
      · rename_i hl
        rw [hl]
        rfl
      · rfl
    · intro other hother
      rw [hothers other hother, happended.others other hother]

/-- A file that is there is loaded line by line. -/
theorem loadSummaries_some (h : f.Writable path names) {text : String}
    (htext : f.text? names = some text) :
    f.loadSummaries path = (readSummaries text).mapError .content := by
  have hread : f.read path = .ok text := by
    refine bind_eq_ok.2 ⟨names, h.located, ?_⟩
    rw [htext]
    rfl
  rw [loadSummaries, hread]
  rfl

/-- A file that is not there cannot be loaded. -/
theorem loadSummaries_none (h : f.Writable path names) (htext : f.text? names = none) :
    f.loadSummaries path = .error (.file .notFound) := by
  have hread : f.read path = .error .notFound := by
    unfold read
    rw [h.located]
    dsimp only [bind, Except.bind]
    rw [htext, h.noDirectory]
    rfl
  rw [loadSummaries, hread]
  rfl

/-- Summaries that are added to a file, which is missing or empty at first, are loaded again in the
order in which they were added.  Only if the file was missing and nothing was added to it, it is
still missing, which is a failure.  No other file changes. -/
theorem loadSummaries_appendSummaries (h : f.Writable path names)
    (hempty : f.text? names = none ∨ f.text? names = some "") {earlier later : List RunSummary}
    (hfits : ∀ s ∈ earlier ++ later, s.Fits) :
    ∃ before after, f.appendSummaries path earlier = .ok before ∧
      before.appendSummaries path later = .ok after ∧
      (after.loadSummaries path =
        if f.text? names = none ∧ earlier ++ later = [] then .error (.file .notFound)
        else .ok (earlier ++ later)) ∧
      ∀ other, other ≠ names → after.text? other = f.text? other := by
  -- Adding two lists one after the other is adding all at once.
  obtain ⟨after, happend, hwritable, htext, hothers⟩ := appendSummaries_eq_ok h (earlier ++ later)
  have hsplit : f.appendSummaries path (earlier ++ later)
      = f.appendSummaries path earlier >>= fun g => g.appendSummaries path later :=
    List.foldlM_append
  rw [hsplit] at happend
  obtain ⟨before, hearlier, hlater⟩ := bind_eq_ok.1 happend
  refine ⟨before, after, hearlier, hlater, ?_, hothers⟩
  have hload : ∀ text, after.text? names = some text → readSummaries text = .ok (earlier ++ later) →
      after.loadSummaries path = .ok (earlier ++ later) := by
    intro text hsome hread
    rw [loadSummaries_some hwritable hsome, hread]
    rfl
  have hread := readSummaries_foldl hfits
  by_cases hnil : earlier ++ later = []
  · rw [if_pos hnil] at htext
    rcases hempty with hnone | hsome
    · rw [if_pos ⟨hnone, hnil⟩]
      exact loadSummaries_none hwritable (htext.trans hnone)
    · rw [if_neg fun hmissing => (by rw [hsome] at hmissing; cases hmissing.1)]
      rw [hnil] at hread
      exact hload "" (htext.trans hsome) (hread.trans (congrArg Except.ok hnil.symm))
  · have hstart : (f.text? names).getD "" = "" := by
      rcases hempty with hnone | hsome
      · rw [hnone]
        rfl
      · rw [hsome]
        rfl
    rw [if_neg hnil, hstart] at htext
    rw [if_neg fun hmissing => hnil hmissing.2]
    exact hload _ htext hread

/-- A directory without any file. -/
def bare : Files := ⟨"/runs", []⟩

/-- The example can be written to. -/
theorem writable_bare : bare.Writable "/runs/summaries.jsonl" ["summaries.jsonl"] :=
  ⟨by decide, by decide, by decide⟩

/-- Loading what was not added to a file that is missing gives no empty list. -/
theorem loadSummaries_bare :
    bare.Writable "/runs/summaries.jsonl" ["summaries.jsonl"] ∧
      bare.text? ["summaries.jsonl"] = none ∧
      ¬∃ after, bare.appendSummaries "/runs/summaries.jsonl" [] = .ok after ∧
        after.loadSummaries "/runs/summaries.jsonl" = .ok [] := by
  refine ⟨writable_bare, rfl, ?_⟩
  rintro ⟨after, happend, hload⟩
  cases happend
  rw [loadSummaries_none writable_bare rfl] at hload
  cases hload

/-- A summary with texts that have to be escaped, and with numbers. -/
def awkward : RunSummary where
  runId := "1"
  runName := "night\n\x22ly\x22"
  startedAt := -1
  target := "http://localhost:8080/\x5c\x00é"
  scenarios := [⟨"steady\x0d", "fixed-iterations(1 x 1)", 18446744073709551615, 1, true⟩]
  tags := .ofList [("kind=b", ⟨1, 0, some 12.5, none, none, none, none, some 12.5⟩),
    ("kind=a", ⟨0, 0, none, none, none, none, none, none⟩)]
  total := ⟨1, 0, some 12.5, some 12.5, none, none, none, none⟩
  thresholds := [⟨"p(95) < 4000", some 12.5, "pass"⟩]
  verdict := "passed"
  version := "0.1.0"

/-- The number of the example is read back. -/
theorem readsBack_half : ReadsBack? (some 12.5) := by
  intro y hy
  cases hy
  have hchars : (Numeral.real 12.5).chars = ['1', '2', '.', '5'] := by decide +kernel
  refine ⟨rfl, ⟨⟨false, ['1', '2'], ['5'], none⟩, ?_, ?_⟩⟩
  · rw [hchars]
    rfl
  · have hscale : scale (Number.ofCount 125) (-1) = some 12.5 := by
      rw [scale, if_neg (by decide), if_pos (by decide)]
      rfl
    change Numeral.scaled false 125 (-1) = _
    rw [Numeral.scaled, hscale]
    rfl

/-- Figures that have only this number fit. -/
theorem fits_of_half {s : FigureSummary} (hcount : s.count < 2) (hfailures : s.failures < 2)
    (hnumbers : ∀ x ∈ [s.avgMs, s.p50Ms, s.p90Ms, s.p95Ms, s.p99Ms, s.maxMs],
      x = none ∨ x = some 12.5) : s.Fits where
  count := Nat.lt_trans hcount (by decide)
  failures := Nat.lt_trans hfailures (by decide)
  numbers := by
    intro x hx
    rcases hnumbers x hx with rfl | rfl
    · intro y hy
      cases hy
    · exact readsBack_half

/-- The example fits, awkward texts and all. -/
theorem fits_awkward : awkward.Fits where
  startedAt := ⟨by decide, by decide⟩
  scenarios := List.forall_mem_singleton.2 ⟨by decide, by decide⟩
  tags := by
    have hentries : awkward.tags.entries = [("kind=a", ⟨0, 0, none, none, none, none, none, none⟩),
        ("kind=b", ⟨1, 0, some 12.5, none, none, none, none, some 12.5⟩)] := rfl
    rw [hentries]
    refine List.forall_mem_cons.2 ⟨?_, List.forall_mem_singleton.2 ?_⟩
    · exact fits_of_half (by decide) (by decide) (by simp)
    · exact fits_of_half (by decide) (by decide) (by simp)
  total := fits_of_half (by decide) (by decide) (by simp [awkward])
  thresholds := List.forall_mem_singleton.2 readsBack_half

/-- Texts with quotation marks, line breaks and control characters come back as they were. -/
theorem loadSummaries_appendSummaries_awkward :
    ∃ before after, bare.appendSummaries "/runs/summaries.jsonl" [awkward] = .ok before ∧
      before.appendSummaries "/runs/summaries.jsonl" [awkward, awkward] = .ok after ∧
      after.loadSummaries "/runs/summaries.jsonl" = .ok [awkward, awkward, awkward] := by
  have hfits : ∀ s ∈ [awkward] ++ [awkward, awkward], s.Fits := by
    intro s hs
    rw [List.eq_of_mem_replicate (n := 3) hs]
    exact fits_awkward
  obtain ⟨before, after, hbefore, hafter, hload, -⟩ :=
    loadSummaries_appendSummaries writable_bare (.inl rfl) hfits
  rw [if_neg fun h => List.cons_ne_nil _ _ h.2] at hload
  exact ⟨before, after, hbefore, hafter, hload⟩

end Store.Files

end LoadReplay
