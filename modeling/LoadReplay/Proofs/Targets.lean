import LoadReplay.Proofs.Validation
import LoadReplay.Proofs.WebUrls

/-!
# Requests below a target

Preparing a catalog writes the path of a request behind the text of the target.  If the target has
neither a query nor a fragment, this puts the request below the target (`GoesBelow`).  If it has one
of them, its text ends with that, and so the path becomes a part of it (`GoesBehind`): the URL keeps
the path of the target.

Main statement: `Catalog.prepare_of_plain`.
-/

namespace LoadReplay

open Url

/-! ## Plain requests -/

/-- Whether a character is a letter, a digit, a hyphen or an underscore.  Everything beyond ASCII
counts as a letter. -/
def isWordChar (c : Char) : Bool :=
  isLetter c || Number.isDigit c || c == '-' || c == '_' || 0x7F < c.toNat

/-- Whether a text is a step of a plain path. -/
def IsStep (s : List Char) : Prop := s ≠ [] ∧ ∀ c ∈ s, isWordChar c = true

-- Through `List.all`, since a quantifier would be decided by going through all characters.
instance : DecidablePred IsStep := fun s =>
  decidable_of_iff (s ≠ [] ∧ s.all isWordChar = true) (and_congr_right fun _ => List.all_eq_true)

namespace RequestSpec

/-- Whether a request has a plain path, with or without a slash in front, and a plain query if it
has one. -/
structure IsPlain (r : RequestSpec) : Prop where
  path : ∃ steps, steps ≠ [] ∧ (∀ s ∈ steps, IsStep s) ∧
    (r.path.toList = slashed steps ∨ '/' :: r.path.toList = slashed steps)
  query : ∀ q, r.query = some q → ∀ c ∈ q.toList, isWordChar c = true ∨ c = '=' ∨ c = '&'

/-- The path without the slash in front. -/
def below (r : RequestSpec) : List Char :=
  if r.path.toList.head? = some '/' then r.path.toList.drop 1 else r.path.toList

end RequestSpec

variable {c : Char} {s : List Char} {steps : List (List Char)} {r : RequestSpec}

/-- A character of plain paths is inner. -/
theorem isInner_of_isWordChar (h : isWordChar c = true) : isInner c = true := by
  have hmarks : (['/', '\x5c', '?', '#'].all fun c => decide (c.toNat < 0x80)) = true := by decide
  by_cases hc : c.toNat < 0x80
  · exact Text.forall_char_lt (P := fun c => isWordChar c = true → isInner c = true)
      (by decide +kernel) hc h
  · refine isInner_of_ne (by omega) fun hmem => hc ?_
    exact of_decide_eq_true (List.all_eq_true.1 hmarks c hmem)

/-- What plain requests are written with is not to be encoded if it is ASCII. -/
theorem keeps_of_ascii (h : isWordChar c = true ∨ c ∈ ['/', '=', '&']) (hc : c.toNat < 0x80) :
    pathSet c = false ∧ webQuerySet c = false :=
  Text.forall_char_lt (P := fun c => isWordChar c = true ∨ c ∈ ['/', '=', '&'] →
    pathSet c = false ∧ webQuerySet c = false) (by decide +kernel) hc h

/-- It is neither a dot nor a percent sign in either case. -/
theorem lowerChar_of_isWordChar (h : isWordChar c = true) : Text.lowerChar c ∉ ['.', '%'] := by
  by_cases hc : c.toNat < 0x80
  · exact Text.forall_char_lt (P := fun c => isWordChar c = true → Text.lowerChar c ∉ ['.', '%'])
      (by decide +kernel) hc h
  · rw [Text.lowerChar_of_le (Nat.le_of_not_lt hc)]
    have hdots : (['.', '%'].all fun c => decide (c.toNat < 0x80)) = true := by decide
    exact fun hmem => hc (of_decide_eq_true (List.all_eq_true.1 hdots c hmem))

/-- A step of a plain path means no other part. -/
theorem IsStep.isPart (h : IsStep s) : IsPart s := by
  have hdots : ∀ t ∈ ["..", ".%2e", "%2e.", "%2e%2e", ".", "%2e"].map String.toList,
      t.head?.any (· ∈ ['.', '%']) = true := by decide
  have hnone : Text.lower s ∉ ["..", ".%2e", "%2e.", "%2e%2e", ".", "%2e"].map String.toList := by
    intro hmem
    obtain ⟨c, rest, rfl⟩ := List.exists_cons_of_ne_nil h.1
    exact lowerChar_of_isWordChar (h.2 c List.mem_cons_self) (of_decide_eq_true (hdots _ hmem))
  refine ⟨fun c hc => isInner_of_isWordChar (h.2 c hc), decide_eq_false fun hmem => hnone ?_,
    decide_eq_false fun hmem => hnone ?_⟩
  · exact List.mem_append_left ([".", "%2e"].map String.toList) hmem
  · exact List.mem_append_right (["..", ".%2e", "%2e.", "%2e%2e"].map String.toList) hmem

/-- A plain path is made of steps. -/
theorem RequestSpec.IsPlain.exists_steps (h : r.IsPlain) :
    ∃ steps, steps ≠ [] ∧ (∀ s ∈ steps, IsStep s) ∧ '/' :: r.below = slashed steps := by
  obtain ⟨steps, hne, hsteps, hpath⟩ := h.path
  refine ⟨steps, hne, hsteps, ?_⟩
  obtain ⟨step, others, rfl⟩ := List.exists_cons_of_ne_nil hne
  rw [below]
  rcases hpath with hpath | hpath
  · rw [hpath]
    rfl
  · have hstep := hsteps step List.mem_cons_self
    obtain ⟨c, rest, rfl⟩ := List.exists_cons_of_ne_nil hstep.1
    have hhead : r.path.toList.head? = some c := by
      rw [slashed_cons, List.cons_inj_right] at hpath
      rw [hpath]
      rfl
    have hc : c ≠ '/' := by
      rintro rfl
      exact absurd (hstep.2 '/' List.mem_cons_self) (by decide)
    rw [hhead, if_neg fun h => hc (Option.some.inj h), hpath]

/-- Resolving a plain request is reading what is written behind the base. -/
theorem RequestSpec.IsPlain.resolve_eq [Idna] (h : r.IsPlain) (base : List Char) :
    r.resolve base = ((readChars (base ++ '/' :: r.below)).mapError .url).map fun url =>
      r.query.elim url url.withQuery := by
  obtain ⟨steps, hne, hsteps, hpath⟩ := h.path
  have hnil : r.path.toList ≠ [] := by
    obtain ⟨step, others, rfl⟩ := List.exists_cons_of_ne_nil hne
    obtain ⟨c, rest, rfl⟩ := List.exists_cons_of_ne_nil (hsteps step List.mem_cons_self).1
    intro hnil
    rw [hnil] at hpath
    rcases hpath with hpath | hpath <;> cases hpath
  -- Without a colon the path is no URL of its own.
  have hcolon : Text.holds "://".toList r.path.toList = false := by
    rw [Text.holds, Option.isSome_eq_false_iff, Option.isNone_iff_eq_none]
    cases hbreak : Text.breakAt "://".toList r.path.toList with
    | none => rfl
    | some p =>
      have hmem : ':' ∈ r.path.toList := by
        rw [Text.breakAt_eq_some hbreak]
        exact List.mem_append_left _ (List.mem_append_right _ (by decide))
      have hslashed : ':' ∈ slashed steps := by
        rcases hpath with hpath | hpath
        · exact hpath ▸ hmem
        · exact hpath ▸ List.mem_cons_of_mem _ hmem
      rcases mem_slashed hslashed with hslash | ⟨step, hstep, hc⟩
      · cases hslash
      · exact absurd ((hsteps step hstep).2 ':' hc) (by decide)
  -- With its slash in front or without it, the path is put below the base in the same way.
  have hbelow : (if r.path.toList.head? = some '/' then r.path.toList else '/' :: r.path.toList) =
      '/' :: r.below := by
    rw [below]
    split
    · rename_i hhead
      obtain ⟨rest, hrest⟩ := List.head?_eq_some_iff.1 hhead
      rw [hrest]
      rfl
    · rfl
  rw [resolve]
  dsimp only
  rw [if_neg fun hempty => hnil (List.isEmpty_iff.1 hempty), hcolon, if_neg Bool.false_ne_true,
    hbelow]
  show (readChars (base ++ '/' :: r.below)).mapError RequestFault.url >>= _ = _
  cases (readChars (base ++ '/' :: r.below)).mapError RequestFault.url with
  | error e => rfl
  | ok url => cases r.query <;> rfl

/-! ## Slashes at the end -/

/-- What stands in front of a character that stays is left as it is. -/
theorem rdropWhile_append_cons {p : Char → Bool} (hc : p c = false) (s rest : List Char) :
    (s ++ c :: rest).rdropWhile p = s ++ c :: rest.rdropWhile p := by
  have hc' : ¬p c = true := Bool.eq_false_iff.1 hc
  induction rest using List.reverseRecOn with
  | nil => exact List.rdropWhile_concat_neg p s c hc'
  | append_singleton rest x ih =>
    rw [← List.cons_append, ← List.append_assoc]
    by_cases hx : p x = true
    · rw [List.rdropWhile_concat_pos _ _ _ hx, List.rdropWhile_concat_pos _ _ _ hx, ih]
    · rw [List.rdropWhile_concat_neg _ _ _ hx, List.rdropWhile_concat_neg _ _ _ hx,
        List.append_assoc, List.cons_append]

variable {parts : List (List Char)}

/-- An inner character is no slash. -/
theorem ne_slash_of_isInner (h : isInner c = true) : (c == '/') = false :=
  (Bool.or_eq_false_iff.1 (isSlash_of_isInner h)).1

/-- The slashes at the end of a path are those of its last parts, as far as these are empty. -/
theorem rdropWhile_slashed (hparts : ∀ s ∈ parts, ∀ c ∈ s, isInner c = true) :
    (slashed parts).rdropWhile (· == '/') = slashed (parts.rdropWhile List.isEmpty) := by
  induction parts using List.reverseRecOn with
  | nil => rfl
  | append_singleton parts s ih =>
    obtain ⟨hfront, hs⟩ := List.forall_mem_append.1 hparts
    have hlast : slashed (parts ++ [s]) = slashed parts ++ '/' :: s := by
      rw [slashed_append]
      exact congrArg (slashed parts ++ '/' :: ·) (List.append_nil s)
    rw [hlast]
    obtain rfl | ⟨front, c, rfl⟩ := List.eq_nil_or_concat' s
    · rw [List.rdropWhile_concat_pos _ _ _ rfl, ih hfront, List.rdropWhile_concat_pos _ _ _ rfl]
    · have hmem : c ∈ front ++ [c] := List.mem_append_right _ List.mem_cons_self
      have hc := ne_slash_of_isInner (hs _ List.mem_cons_self c hmem)
      have hne : ¬(front ++ [c]).isEmpty = true := by simp
      rw [List.rdropWhile_concat_neg _ _ _ hne, hlast]
      show (slashed parts ++ ('/' :: front ++ [c])).rdropWhile _ = _
      rw [← List.append_assoc]
      exact (List.rdropWhile_concat_neg (· == '/') _ c (Bool.eq_false_iff.1 hc)).trans
        (List.append_assoc _ _ _)

/-! ## Where paths go -/

namespace Url

/-- A text without the slashes at its end, with a path behind it. -/
def extend (set : EscapeSet) (below : List Char) (t : String) : String :=
  String.ofList (t.toList.rdropWhile (· == '/')) ++ "/" ++ escape set below

variable {set : EscapeSet} {below : List Char}

/-- A path behind a text that is in its written form is written in the form that it has there. -/
theorem escape_extend {t : String} (hset : set '/' = false) (h : Keeps set t.toList)
    (below : List Char) :
    escape set (t.toList.rdropWhile (· == '/') ++ '/' :: below) = extend set below t := by
  have hfront : Keeps set (t.toList.rdropWhile (· == '/')) := fun c hc =>
    h c ((List.rdropWhile_prefix _ _).mem hc)
  rw [escape_append, escape_of_kept hfront, escape_slash hset, ← String.append_assoc]
  rfl

/-- What a path is put behind has no more kinds of characters than before. -/
theorem forall_extend {P : Char → Prop} (hs : ∀ c ∈ s, P c) (hslash : P '/')
    (hinner : ∀ c, isInner c = true → P c) (hsteps : ∀ s ∈ steps, IsStep s)
    (hbelow : '/' :: below = slashed steps) :
    ∀ c ∈ s.rdropWhile (· == '/') ++ '/' :: below, P c := by
  intro c hc
  rcases List.mem_append.1 hc with hc | hc
  · exact hs c ((List.rdropWhile_prefix _ _).mem hc)
  · rw [hbelow] at hc
    rcases mem_slashed hc with rfl | ⟨step, hstep, hc⟩
    · exact hslash
    · exact hinner c ((hsteps step hstep).isPart.inner c hc)

variable {u : Url}

/-- The base is the text of the target without the slashes at its end. -/
theorem baseOf_eq (u : Url) : Catalog.baseOf u = u.text.toList.rdropWhile (· == '/') := rfl

namespace IsWeb

variable [Idna]

/-- The text in front of a path ends with no slash, so that only slashes of the path are taken off.
-/
theorem baseOf_path (h : u.IsWeb) {a : Authority} {parts : List String} (ha : u.authority = some a)
    (hpath : u.path = .segments parts) (hf : u.fragment = none) (hq : u.query = none)
    (hbelow : '/' :: below = slashed steps) :
    Catalog.baseOf u ++ '/' :: below = webText u.scheme a
      ((parts.map String.toList).rdropWhile List.isEmpty ++ steps) none none := by
  obtain ⟨a', ha', hnormal⟩ := h.authority
  obtain rfl : a' = a := Option.some.inj (ha'.symm.trans ha)
  obtain ⟨hne, hinner⟩ := hnormal.inner_text
  obtain ⟨front, c, hconcat⟩ := (List.eq_nil_or_concat' a'.text.toList).resolve_left hne
  have hc : (c == '/') = false := ne_slash_of_isInner (hinner c (by simp [hconcat]))
  have hfront (ps : List (List Char)) : webText u.scheme a' ps none none =
      (u.scheme.toList ++ "://".toList ++ front) ++ c :: slashed ps := by
    simp [webText, tailText, hconcat]
  rw [baseOf_eq, toList_text ha hpath, hf, hq, Option.map_none, hfront, hfront,
    rdropWhile_append_cons (p := (· == '/')) hc,
    rdropWhile_slashed fun s hs => (h.isPart hpath s hs).inner, slashed_append, hbelow,
    List.append_assoc, List.cons_append]

section

variable (hsteps : ∀ s ∈ steps, IsStep s) (hbelow : '/' :: below = slashed steps)
include hsteps hbelow

/-- Behind a fragment, the path makes the fragment longer. -/
theorem read_fragment (h : u.IsWeb) {f : String} (hf : u.fragment = some f) :
    readChars (Catalog.baseOf u ++ '/' :: below) =
      .ok { u with fragment := some (extend fragmentSet below f) } := by
  obtain ⟨a, ha, -⟩ := h.authority
  obtain ⟨parts, -, -, hpath⟩ := h.path
  have hkeeps := h.fragment f hf
  have hfragment : ∀ f', some (f.toList.rdropWhile (· == '/') ++ '/' :: below) = some f' →
      ∀ c ∈ f', 0x20 < c.toNat := by
    rintro _ ⟨⟩
    exact forall_extend (fun c hc => lt_of_fragmentSet (hkeeps c hc)) (by decide)
      (fun _ => lt_of_isInner) hsteps hbelow
  have htext : Catalog.baseOf u ++ '/' :: below = webText u.scheme a (parts.map String.toList)
      (u.query.map String.toList) (some (f.toList.rdropWhile (· == '/') ++ '/' :: below)) := by
    rw [baseOf_eq, toList_text ha hpath, hf, Option.map_some, webText_fragment,
      rdropWhile_append_cons (by decide), webText_fragment, List.append_assoc, List.cons_append]
  rw [htext, h.read_tail ha hpath h.forall_query hfragment, map_escape_toList h.query,
    Option.map_some, escape_extend (by decide) hkeeps]

/-- Behind a query, the path makes the query longer. -/
theorem read_query (h : u.IsWeb) (hf : u.fragment = none) {q : String} (hq : u.query = some q) :
    readChars (Catalog.baseOf u ++ '/' :: below) =
      .ok { u with query := some (extend webQuerySet below q) } := by
  obtain ⟨a, ha, -⟩ := h.authority
  obtain ⟨parts, -, -, hpath⟩ := h.path
  have hkeeps := h.query q hq
  have hquery : ∀ q', some (q.toList.rdropWhile (· == '/') ++ '/' :: below) = some q' →
      ∀ c ∈ q', 0x20 < c.toNat ∧ c ≠ '#' := by
    rintro _ ⟨⟩
    exact forall_extend (fun c hc => lt_of_webQuerySet (hkeeps c hc)) (by decide)
      (fun _ hc => ⟨lt_of_isInner hc, (ne_of_isInner hc).2⟩) hsteps hbelow
  have htext : Catalog.baseOf u ++ '/' :: below = webText u.scheme a (parts.map String.toList)
      (some (q.toList.rdropWhile (· == '/') ++ '/' :: below)) (u.fragment.map String.toList) := by
    rw [baseOf_eq, toList_text ha hpath, hf, hq, Option.map_some, Option.map_none, webText_query,
      rdropWhile_append_cons (by decide), webText_query, List.append_assoc, List.cons_append]
  rw [htext, h.read_tail ha hpath hquery h.forall_fragment, map_escape_toList h.fragment,
    Option.map_some, escape_extend (by decide) hkeeps]

/-- Behind a path, the path goes below it. -/
theorem read_path (h : u.IsWeb) (hf : u.fragment = none) (hq : u.query = none)
    (hne : steps ≠ []) :
    ∃ path, readChars (Catalog.baseOf u ++ '/' :: below) = .ok { u with path } ∧
      path.text = extend pathSet below u.path.text := by
  obtain ⟨a, ha, hnormal⟩ := h.authority
  obtain ⟨parts, -, -, hpath⟩ := h.path
  have hold := h.isPart hpath
  have hparts : ∀ s ∈ (parts.map String.toList).rdropWhile List.isEmpty ++ steps, IsPart s :=
    List.forall_mem_append.2 ⟨fun s hs => hold s ((List.rdropWhile_prefix _ _).mem hs),
      fun s hs => (hsteps s hs).isPart⟩
  have hkept : u.path.text.toList.rdropWhile (· == '/') =
      slashed ((parts.map String.toList).rdropWhile List.isEmpty) := by
    rw [hpath, Path.toList_text, rdropWhile_slashed fun s hs => (hold s hs).inner]
  refine ⟨.segments (((parts.map String.toList).rdropWhile List.isEmpty ++ steps).map
    (escape pathSet)), ?_, ?_⟩
  · rw [h.baseOf_path ha hpath hf hq hbelow, readChars_web h.scheme hnormal
      (fun hnil => hne (List.append_eq_nil_iff.1 hnil).2) hparts (fun _ hq => by cases hq)
      (fun _ hf => by cases hf), ← ha, hf, hq]
    rfl
  · rw [← String.toList_inj, Path.toList_text, List.map_map]
    refine (toList_escape_slashed (by decide) _).symm.trans ?_
    rw [slashed_append, ← hkept, ← hbelow, escape_extend (by decide) h.keeps_path]

end

end IsWeb

end Url

namespace RequestSpec

variable {target url : Url}

/-- Whether a request has gone below a target: the URL has the path of the request behind that of
the target, and the query of the request. -/
structure GoesBelow (r : RequestSpec) (target url : Url) : Prop where
  path : url.path.text = extend pathSet r.below target.path.text
  query : url.query = r.query.map fun q => escape webQuerySet q.toList

/-- Whether a request has gone behind a target that ends with a query or a fragment: the URL keeps
the path of the target, and a query of the target stays unless the request has one itself. -/
structure GoesBehind (r : RequestSpec) (target url : Url) : Prop where
  path : url.path = target.path
  query : url.query = (r.query.map fun q => escape webQuerySet q.toList).or
    (if target.fragment.isSome then target.query else target.query.map (extend webQuerySet r.below))

/-- What the URL of a request is, compared with the target. -/
structure Lands (r : RequestSpec) (target url : Url) : Prop where
  scheme : url.scheme = target.scheme
  authority : url.authority = target.authority
  fragment : url.fragment = target.fragment.map (extend fragmentSet r.below)
  below : r.GoesBelow target url ↔ target.query = none ∧ target.fragment = none
  behind : ¬(target.query = none ∧ target.fragment = none) → r.GoesBehind target url

/-- Behind a text, a plain path makes another text. -/
theorem IsPlain.extend_ne (h : r.IsPlain) (t : String) : extend pathSet r.below t ≠ t := by
  obtain ⟨steps, hne, hsteps, hbelow⟩ := h.exists_steps
  obtain ⟨front, step, rfl⟩ := (List.eq_nil_or_concat' steps).resolve_left hne
  have hstep := hsteps step (List.mem_append_right _ List.mem_cons_self)
  have hwritten := isWritten_escape hstep.isPart.isRaw
  have hnil : (escape pathSet step).toList ≠ [] := fun hnil => hstep.1 (escape_eq_nil.1 hnil)
  obtain ⟨inner, c, hlast⟩ := (List.eq_nil_or_concat' _).resolve_left hnil
  have hc : (c == '/') = false := ne_slash_of_isInner (hwritten.1.inner c (by simp [hlast]))
  intro hsame
  -- Its text ends with a character of its last step, so that no slash can be taken off.
  have hends : ∃ more, t.toList = t.toList.rdropWhile (· == '/') ++ more ++ [c] := by
    refine ⟨slashed (front.map fun s => (escape pathSet s).toList) ++ '/' :: inner, ?_⟩
    have htext := congrArg String.toList hsame
    rw [extend, String.append_assoc, ← escape_slash (by decide), hbelow, String.toList_append,
      toList_escape_slashed (by decide), List.map_append, slashed_append] at htext
    refine htext.symm.trans ?_
    simp [slashed, hlast]
  obtain ⟨more, hmore⟩ := hends
  have hkept : t.toList.rdropWhile (· == '/') = t.toList := by
    rw [hmore]
    exact List.rdropWhile_concat_neg (· == '/') _ c (Bool.eq_false_iff.1 hc)
  have hlength := congrArg List.length hmore
  rw [hkept, List.length_append, List.length_append, List.length_singleton] at hlength
  omega

/-- A plain query is the query that the URL gets. -/
theorem IsPlain.withQuery_eq (h : r.IsPlain) (hk : Kind.of url.scheme = .web) :
    r.query.elim url url.withQuery =
      { url with query := (r.query.map fun q => escape webQuerySet q.toList).or url.query } := by
  cases hquery : r.query with
  | none => rfl
  | some q =>
    have hkept : q.toList.filter (fun c => !(c ∈ ['\t', '\n', '\x0d'])) = q.toList := by
      have hblank : (['\t', '\n', '\x0d'].all fun c =>
        !(isWordChar c || c == '=' || c == '&')) = true := by decide
      refine List.filter_eq_self.2 fun c hc => ?_
      rw [Bool.not_eq_true']
      refine decide_eq_false fun hmem => ?_
      have hno := List.all_eq_true.1 hblank c hmem
      rcases h.query q hquery c hc with hword | rfl | rfl
      · simp [hword] at hno
      · cases hno
      · cases hno
    show url.withQuery q = _
    rw [withQuery, hkept, hk]
    rfl

/-- Where a plain request goes from a target of the web. -/
theorem IsPlain.exists_resolve [Idna] (h : r.IsPlain) (hweb : target.IsWeb) :
    ∃ url, r.resolve (Catalog.baseOf target) = .ok url ∧ r.Lands target url := by
  obtain ⟨steps, hne, hsteps, hbelow⟩ := h.exists_steps
  have hk := kind_of_isHttp hweb.scheme
  have hresolve : ∀ url, readChars (Catalog.baseOf target ++ '/' :: r.below) = .ok url →
      Kind.of url.scheme = .web → r.resolve (Catalog.baseOf target) =
        .ok { url with query := (r.query.map fun q => escape webQuerySet q.toList).or url.query }
      := by
    intro url hread hkind
    rw [h.resolve_eq, hread, ← h.withQuery_eq hkind]
    rfl
  -- A URL that keeps the path of the target has not gone below it.
  have hnot : ∀ url : Url, url.path = target.path → ¬r.GoesBelow target url := by
    intro url hpath hbelow
    exact h.extend_ne target.path.text (hbelow.path.symm.trans (congrArg _ hpath))
  cases hf : target.fragment with
  | some f =>
    refine ⟨_, hresolve _ (hweb.read_fragment hsteps hbelow hf) hk, rfl, rfl, ?_,
      iff_of_false (hnot _ rfl) ?_, fun _ => ⟨rfl, ?_⟩⟩
    · rw [hf]
      rfl
    · rw [hf]
      exact fun h => by cases h.2
    · rw [hf]
      rfl
  | none =>
    cases hq : target.query with
    | some q =>
      refine ⟨_, hresolve _ (hweb.read_query hsteps hbelow hf hq) hk, rfl, rfl, ?_,
        iff_of_false (hnot _ rfl) ?_, fun _ => ⟨rfl, ?_⟩⟩
      · rw [hf]
        rfl
      · rw [hq]
        exact fun h => by cases h.1
      · rw [hf, hq]
        rfl
    | none =>
      obtain ⟨path, hread, htext⟩ := hweb.read_path hsteps hbelow hf hq hne
      refine ⟨_, hresolve _ hread hk, rfl, rfl, ?_, iff_of_true ⟨htext, ?_⟩ ⟨hq, hf⟩,
        fun hsome => absurd ⟨hq, hf⟩ hsome⟩
      · rw [hf]
        rfl
      · show Option.or _ target.query = _
        rw [hq, Option.or_none]

/-- The characters of a path that are not letters of another script are written as they are. -/
theorem IsPlain.escape_below (h : r.IsPlain) (hascii : ∀ c ∈ r.path.toList, c.toNat < 0x80) :
    escape pathSet r.below = String.ofList r.below := by
  obtain ⟨steps, -, hsteps, hbelow⟩ := h.exists_steps
  refine escape_of_kept fun c hc => (keeps_of_ascii ?_ ?_).1
  · have hmem : c ∈ slashed steps := hbelow ▸ List.mem_cons_of_mem _ hc
    rcases mem_slashed hmem with rfl | ⟨step, hstep, hc⟩
    · exact .inr List.mem_cons_self
    · exact .inl ((hsteps step hstep).2 c hc)
  · rw [below] at hc
    split at hc
    · exact hascii c (List.mem_of_mem_drop hc)
    · exact hascii c hc

/-- A plain query in ASCII is written as it is. -/
theorem IsPlain.escape_query (h : r.IsPlain)
    (hascii : ∀ q, r.query = some q → ∀ c ∈ q.toList, c.toNat < 0x80) :
    (r.query.map fun q => escape webQuerySet q.toList) = r.query := by
  cases hquery : r.query with
  | none => rfl
  | some q =>
    refine congrArg some (escape_toList fun c hc => (keeps_of_ascii ?_ (hascii q hquery c hc)).2)
    rcases h.query q hquery c hc with hword | rfl | rfl
    · exact .inl hword
    · exact .inr (by decide)
    · exact .inr (by decide)

end RequestSpec

/-! ## Catalogs -/

/-- A target of the web that was accepted is in its written form. -/
theorem Draft.isWeb_target [Idna] {d : Draft} {definition : Definition}
    (h : d.build = .ok definition) (hscheme : IsHttp definition.target.scheme) :
    definition.target.IsWeb ∧ definition.target.canBeBase = true := by
  obtain ⟨⟨url, htarget, rfl⟩, -⟩ := build_eq_ok.1 h
  obtain ⟨text, -, hread, hbase⟩ := readTarget_eq_ok.1 htarget
  exact ⟨isWeb_of_readChars hread hscheme, hbase⟩

namespace Catalog

variable {target : Url} {g : Group} {c : Catalog}

/-- Whether a prepared group has the requests of a group, each with a URL that fits the target. -/
def GroupLands (target : Url) (g : Group) (prepared : PreparedGroup) : Prop :=
  prepared.label = g.label ∧
    List.Forall₂ (fun r request => request.spec = r ∧ RequestSpec.Lands r target request.url)
      g.requests prepared.requests

/-- Where all requests are plain, a group is prepared, and its requests land behind the base. -/
theorem exists_prepareGroup [Idna] (hweb : target.IsWeb) (hplain : ∀ r ∈ g.requests, r.IsPlain) :
    ∃ prepared, prepareGroup (baseOf target) g = .ok prepared ∧ GroupLands target g prepared := by
  have hrequest : ∀ r ∈ g.requests, ∃ request, prepareRequest (baseOf target) g r = .ok request ∧
      request.spec = r ∧ r.Lands target request.url := by
    intro r hr
    obtain ⟨url, hresolve, hlands⟩ := (hplain r hr).exists_resolve hweb
    refine ⟨{ group := g.label, url, spec := r,
              tags := (g.tags.merge r.tags).insert groupKey g.label }, ?_, rfl, hlands⟩
    rw [prepareRequest, hresolve]
    rfl
  obtain ⟨requests, hrequests, hlands⟩ := exists_mapM_forall₂ hrequest
  refine ⟨{ label := g.label, shuffle := g.shuffle, requests }, ?_, rfl, hlands⟩
  rw [prepareGroup, hrequests]
  rfl

/-- **Requests go below a target that ends with its path.**  Whatever target of the web has been
accepted, preparing a catalog of plain requests fails only if the catalog itself is wrong.  Each
request goes below the target exactly if that has neither a query nor a fragment; otherwise it goes
behind what the target ends with, and the URL keeps the path of the target.  What is ASCII is
written as it is. -/
theorem prepare_of_plain [Idna] {d : Draft} {definition : Definition}
    (hbuild : d.build = .ok definition) (hscheme : IsHttp definition.target.scheme)
    (hplain : ∀ g ∈ c.groups, ∀ r ∈ g.requests, r.IsPlain) :
    (∀ e, c.validate = .error e → c.prepare definition.target = .error e) ∧
      (c.validate = .ok () → ∃ prepared, c.prepare definition.target = .ok prepared ∧
        List.Forall₂ (GroupLands definition.target) c.groups prepared.groups) ∧
      ∀ g ∈ c.groups, ∀ r ∈ g.requests,
        ((∀ c ∈ r.path.toList, c.toNat < 0x80) → escape pathSet r.below = String.ofList r.below) ∧
          ((∀ q, r.query = some q → ∀ c ∈ q.toList, c.toNat < 0x80) →
            (r.query.map fun q => escape webQuerySet q.toList) = r.query) := by
  obtain ⟨hweb, hbase⟩ := Draft.isWeb_target hbuild hscheme
  refine ⟨fun e he => ?_, fun hvalid => ?_, fun g hg r hr =>
    ⟨(hplain g hg r hr).escape_below, (hplain g hg r hr).escape_query⟩⟩
  · rw [prepare, he]
    rfl
  · obtain ⟨groups, hgroups, hlands⟩ := exists_mapM_forall₂ fun g hg =>
      exists_prepareGroup hweb (hplain g hg)
    refine ⟨⟨groups⟩, ?_, hlands⟩
    rw [prepare, hvalid, hbase, hgroups]
    rfl

/-- A target with a query, and requests with and without a slash in front. -/
def shopDraft : Draft :=
  { Draft.new "run" with
    target := some "http://shop.test:8080/base/?tenant=1"
    catalog := ⟨[{ label := "g", tags := .empty, shuffle := false
                   requests := [.read "/api/items?page=2", .read "users"] }]⟩
    scenarios := [.new "steady" (.fixedIterations 1 1)] }

open scoped Url.Idna in
/-- A target with a query keeps its path, and both requests end up in the query. -/
theorem prepare_of_plain_shop :
    ∃ definition prepared, shopDraft.build = .ok definition ∧
      shopDraft.catalog.prepare definition.target = .ok prepared ∧
      (prepared.groups.map fun g => g.requests.map fun request => request.url.text) =
        [["http://shop.test:8080/base/?page=2", "http://shop.test:8080/base/?tenant=1/users"]] ∧
      ∀ p ∈ prepared.groups, ∀ request ∈ p.requests,
        request.url.path = definition.target.path := by
  -- One evaluation shows both texts; the theorem then says why they are as they are.
  have hrun : (shopDraft.build.toOption.any fun definition =>
      (shopDraft.catalog.prepare definition.target).toOption.any fun prepared =>
        IsHttp definition.target.scheme ∧ definition.target.query = some "tenant=1" ∧
          (prepared.groups.map fun g => g.requests.map fun request => request.url.text) =
            [["http://shop.test:8080/base/?page=2",
              "http://shop.test:8080/base/?tenant=1/users"]]) = true := by
    decide +kernel
  obtain ⟨definition, hbuild, hrun⟩ := (Option.any_eq_true _ _).1 hrun
  obtain ⟨prepared, hprepare, hrun⟩ := (Option.any_eq_true _ _).1 hrun
  obtain ⟨hscheme, hquery, htexts⟩ := of_decide_eq_true hrun
  have hbuild := eq_ok_of_toOption hbuild
  have hprepare := eq_ok_of_toOption hprepare
  have hplain : ∀ g ∈ shopDraft.catalog.groups, ∀ r ∈ g.requests, r.IsPlain := by
    refine List.forall_mem_singleton.2 (List.forall_mem_cons.2 ⟨⟨?_, ?_⟩,
      List.forall_mem_singleton.2 ⟨?_, ?_⟩⟩)
    · exact ⟨["api".toList, "items".toList], by decide, by decide, .inl rfl⟩
    · have hchars : ("page=2".toList.all fun c => isWordChar c || c == '=' || c == '&') = true := by
        decide
      rintro _ ⟨⟩ c hc
      simpa [or_assoc] using List.all_eq_true.1 hchars c hc
    · exact ⟨["users".toList], by decide, by decide, .inr rfl⟩
    · rintro _ ⟨⟩
  obtain ⟨-, hvalid, -⟩ := prepare_of_plain hbuild hscheme hplain
  obtain ⟨prepared', hprepare', hlands⟩ := hvalid rfl
  obtain rfl : prepared' = prepared := Except.ok.inj (hprepare'.symm.trans hprepare)
  refine ⟨definition, prepared', hbuild, hprepare, htexts, fun p hp request hrequest => ?_⟩
  obtain ⟨g, -, hgroup⟩ := mem_of_forall₂ hlands hp
  obtain ⟨r, -, -, hrequest⟩ := mem_of_forall₂ hgroup.2 hrequest
  refine (hrequest.behind fun hnone => ?_).path
  rw [hquery] at hnone
  cases hnone.1

end Catalog

end LoadReplay
