import LoadReplay.Proofs.Results
import LoadReplay.Proofs.Trimming
import LoadReplay.Tag.Filter

/-!
# Filters and their texts

Filters are kept as texts and read from them.  A text is cut at its commas and each piece at its
first equals sign, or at its first colon if there is none, and the blanks around the parts do not
count.  So no tag that is read has a comma in it, an equals sign in its key, or a blank at an end of
one of its parts (`Tag.IsPlain`).  Just such tags come back from their text: it is cut at the commas
between them and nowhere else, and each of them at the equals sign that stands between its parts.

Main statement: `TagFilter.read_text_iff`.
-/

namespace LoadReplay

open Text

/-! ## Tags -/

namespace Tag

/-- Whether a tag is one that can be read. -/
structure IsPlain (t : Tag) : Prop where
  named : t.key ≠ ""
  trimmedKey : IsTrimmed t.key.toList
  equalsSign : '=' ∉ t.key.toList
  commaInKey : ',' ∉ t.key.toList
  trimmedValue : IsTrimmed t.value.toList
  commaInValue : ',' ∉ t.value.toList

instance : DecidablePred IsPlain := fun t =>
  decidable_of_iff (t.key ≠ "" ∧ IsTrimmed t.key.toList ∧ '=' ∉ t.key.toList ∧
      ',' ∉ t.key.toList ∧ IsTrimmed t.value.toList ∧ ',' ∉ t.value.toList)
    ⟨fun ⟨h₁, h₂, h₃, h₄, h₅, h₆⟩ => ⟨h₁, h₂, h₃, h₄, h₅, h₆⟩,
      fun ⟨h₁, h₂, h₃, h₄, h₅, h₆⟩ => ⟨h₁, h₂, h₃, h₄, h₅, h₆⟩⟩

variable {t : Tag} {s : List Char}

/-- A tag is read from a key that is not empty and a value, with a mark between them. -/
theorem readChars_eq_ok :
    readChars s = .ok t ↔ ∃ key value, (splitOnce '=' s).or (splitOnce ':' s) = some (key, value) ∧
      trim key ≠ [] ∧ ⟨String.ofList (trim key), String.ofList (trim value)⟩ = t := by
  rw [readChars]
  cases hcut : (splitOnce '=' s).or (splitOnce ':' s) with
  | none => simp
  | some parts =>
    obtain ⟨key, value⟩ := parts
    by_cases hkey : trim key = []
    · simp [hkey]
    · simp [hkey]

/-- The part of a piece that becomes the key, and the part that becomes the value. -/
theorem parts_of_cut {key value : List Char}
    (h : (splitOnce '=' s).or (splitOnce ':' s) = some (key, value)) :
    '=' ∉ key ∧ (∀ c ∈ key, c ∈ s) ∧ ∀ c ∈ value, c ∈ s := by
  cases hequals : splitOnce '=' s with
  | some parts =>
    rw [hequals] at h
    obtain rfl := Option.some.inj h
    obtain ⟨rfl, hkey⟩ := splitOnce_eq_some hequals
    refine ⟨hkey, fun c hc => ?_, fun c hc => ?_⟩
    · exact List.mem_append_left _ hc
    · exact List.mem_append_right _ (List.mem_cons_of_mem _ hc)
  | none =>
    -- There is no equals sign in the piece at all.
    have hnone : '=' ∉ s := splitOnce_eq_none hequals
    rw [hequals] at h
    obtain ⟨rfl, -⟩ := splitOnce_eq_some (show splitOnce ':' s = some (key, value) from h)
    refine ⟨fun hmem => hnone (List.mem_append_left _ hmem), fun c hc => ?_, fun c hc => ?_⟩
    · exact List.mem_append_left _ hc
    · exact List.mem_append_right _ (List.mem_cons_of_mem _ hc)

/-- What is read from a piece without commas is plain. -/
theorem isPlain_of_readChars (h : readChars s = .ok t) (hcomma : ',' ∉ s) : t.IsPlain := by
  obtain ⟨key, value, hcut, hnamed, rfl⟩ := readChars_eq_ok.1 h
  obtain ⟨hequals, hkey, hvalue⟩ := parts_of_cut hcut
  constructor
  · intro hempty
    have : trim key = [] := by simpa using congrArg String.toList hempty
    exact hnamed this
  · rw [String.toList_ofList]
    exact isTrimmed_trim key
  · rw [String.toList_ofList]
    exact fun hmem => hequals (mem_of_mem_trim hmem)
  · rw [String.toList_ofList]
    exact fun hmem => hcomma (hkey _ (mem_of_mem_trim hmem))
  · rw [String.toList_ofList]
    exact isTrimmed_trim value
  · rw [String.toList_ofList]
    exact fun hmem => hcomma (hvalue _ (mem_of_mem_trim hmem))

/-- A plain tag is read from its text. -/
theorem IsPlain.readChars_text (h : t.IsPlain) : readChars t.text.toList = .ok t := by
  have hcut : splitOnce '=' t.text.toList = some (t.key.toList, t.value.toList) := by
    rw [toList_text]
    exact splitOnce_append h.equalsSign _
  refine readChars_eq_ok.2 ⟨t.key.toList, t.value.toList, ?_, ?_, ?_⟩
  · rw [hcut]
    rfl
  · rw [h.trimmedKey.trim_eq]
    intro hempty
    exact h.named (String.toList_inj.1 hempty)
  · rw [h.trimmedKey.trim_eq, h.trimmedValue.trim_eq, String.ofList_toList, String.ofList_toList]

/-- A plain tag has no comma, so commas divide plain tags. -/
theorem IsPlain.comma_not_mem_text (h : t.IsPlain) : ',' ∉ t.text.toList := by
  rw [toList_text, List.mem_append, List.mem_cons]
  rintro (hkey | hsign | hvalue)
  · exact h.commaInKey hkey
  · cases hsign
  · exact h.commaInValue hvalue

/-- A plain tag has no blanks at its ends. -/
theorem IsPlain.isTrimmed_text (h : t.IsPlain) : IsTrimmed t.text.toList := by
  rw [toList_text]
  constructor
  · intro c hc
    cases hkey : t.key.toList with
    | nil => exact absurd (String.toList_inj.1 hkey) h.named
    | cons first rest =>
      rw [hkey] at hc
      exact h.trimmedKey.front c (by rw [hkey]; exact hc)
  · intro c hc
    rw [List.getLast?_append, List.getLast?_cons] at hc
    cases hvalue : t.value.toList.getLast? with
    | none =>
      -- The text ends with the equals sign.
      rw [hvalue] at hc
      obtain rfl : '=' = c := Option.some.inj hc
      decide
    | some last =>
      rw [hvalue] at hc
      exact h.trimmedValue.back c (by rw [hvalue]; exact hc)

/-- A tag has at least its equals sign. -/
theorem toList_text_ne_nil (t : Tag) : t.text.toList ≠ [] := by
  rw [toList_text]
  simp

end Tag

/-! ## Filters -/

namespace TagFilter

variable {f : TagFilter}

/-- A filter is read from the tags between its commas. -/
theorem read_eq_ok {s : String} :
    read s = .ok f ↔ (pieces s.toList).mapM Tag.readChars = .ok f.tags := by
  rw [read, readChars, map_eq_ok]
  constructor
  · rintro ⟨tags, htags, rfl⟩
    exact htags
  · intro h
    exact ⟨f.tags, h, rfl⟩

/-- No comma is left between commas. -/
theorem comma_not_mem_of_mem_pieces {s piece : List Char} (h : piece ∈ pieces s) : ',' ∉ piece := by
  obtain ⟨whole, hwhole, rfl⟩ := List.mem_map.1 (List.mem_filter.1 h).1
  exact fun hmem => not_mem_of_mem_splitAll hwhole (mem_of_mem_trim hmem)

/-- What is read is plain. -/
theorem isPlain_of_read {s : String} (h : read s = .ok f) : ∀ t ∈ f.tags, t.IsPlain := by
  intro t ht
  obtain ⟨piece, hpiece, hread⟩ := mem_of_mapM (read_eq_ok.1 h) ht
  exact Tag.isPlain_of_readChars hread (comma_not_mem_of_mem_pieces hpiece)

/-- The pieces of the text of a filter are the texts of its tags. -/
theorem pieces_text (h : ∀ t ∈ f.tags, t.IsPlain) :
    pieces f.text.toList = f.tags.map fun t => t.text.toList := by
  by_cases hnone : f.tags = []
  · rw [text, hnone]
    decide
  have hcut : splitAll ',' f.text.toList = f.tags.map fun t => t.text.toList := by
    have hne : f.tags.map Tag.text ≠ [] := by simpa using hnone
    have hglue := splitAll_glue hne fun a ha => by
      obtain ⟨t, ht, rfl⟩ := List.mem_map.1 ha
      exact (h t ht).comma_not_mem_text
    rw [List.map_map] at hglue
    exact hglue
  have htrim : (splitAll ',' f.text.toList).map trim = f.tags.map fun t => t.text.toList := by
    rw [hcut, List.map_map]
    exact List.map_congr_left fun t ht => (h t ht).isTrimmed_text.trim_eq
  rw [pieces, htrim, List.filter_eq_self]
  intro piece hpiece
  obtain ⟨t, -, rfl⟩ := List.mem_map.1 hpiece
  simpa using t.toList_text_ne_nil

/-- A filter of plain tags is read from its text. -/
theorem read_text (h : ∀ t ∈ f.tags, t.IsPlain) : read f.text = .ok f := by
  have hread : (f.tags.map fun t => t.text.toList).mapM Tag.readChars = .ok (f.tags.map id) :=
    mapM_map_eq_ok fun t ht => (h t ht).readChars_text
  rw [read_eq_ok, pieces_text h, hread, List.map_id]

/-- **A filter is read from its text exactly if its tags are plain**, and every filter that is read
from any text has plain tags.  So reading, writing and reading again gives what was read first. -/
theorem read_text_iff :
    (∀ f : TagFilter, read f.text = .ok f ↔ ∀ t ∈ f.tags, t.IsPlain) ∧
      ∀ s f, read s = .ok f → (∀ t ∈ f.tags, t.IsPlain) ∧ read f.text = .ok f := by
  refine ⟨fun f => ⟨isPlain_of_read, read_text⟩, fun s f h => ?_⟩
  have hplain := isPlain_of_read h
  exact ⟨hplain, read_text hplain⟩

/-- A colon cuts only where there is no equals sign, blanks around the parts and empty pieces are
dropped, and a comma in a value is lost. -/
theorem read_text_iff_blanks :
    let f : TagFilter := ⟨[⟨"a", "b"⟩, ⟨"c:d", "e = f"⟩]⟩
    let g : TagFilter := ⟨[⟨"a", "b,c=d"⟩]⟩
    read " a : b ,, c:d = e = f " = .ok f ∧ read f.text = .ok f ∧ read g.text ≠ .ok g := by
  intro f g
  have hread : read " a : b ,, c:d = e = f " = .ok f := by rfl
  obtain ⟨hiff, himage⟩ := read_text_iff
  refine ⟨hread, (himage _ f hread).2, ?_⟩
  rw [ne_eq, hiff g]
  decide

end TagFilter

end LoadReplay
