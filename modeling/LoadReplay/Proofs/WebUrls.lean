import LoadReplay.Proofs.Authorities

/-!
# Texts of URLs of the web

How a text that consists of a scheme of the web, an authority in its normal form, the parts of a
path and a rest is read (`readChars_web`).  The text of any URL that was read is of this form
(`isWeb_of_readChars`, `toList_text`), so that it can be read again with another query or fragment
(`IsWeb.read_tail`).
-/

namespace LoadReplay.Url

variable {c : Char} {s rest : List Char} {scheme : String}

/-! ## Paths -/

/-- A part of a path that is there to stay: it is not divided, does not end the path and does not
mean another part. -/
structure IsPart (s : List Char) : Prop where
  inner : ∀ c ∈ s, isInner c = true
  doubleDot : isDoubleDot s = false
  singleDot : isSingleDot s = false

/-- Parts with a slash in front of each. -/
def slashed (parts : List (List Char)) : List Char := parts.flatMap fun s => '/' :: s

variable {set : EscapeSet} {part : List Char} {parts : List (List Char)}

theorem slashed_cons (part : List Char) (parts : List (List Char)) :
    slashed (part :: parts) = '/' :: (part ++ slashed parts) := rfl

/-- The parts of two paths, one behind the other, are written one behind the other. -/
theorem slashed_append (parts parts' : List (List Char)) :
    slashed (parts ++ parts') = slashed parts ++ slashed parts' := List.flatMap_append

/-- An inner character divides no path. -/
theorem isSlash_of_isInner (h : isInner c = true) : Kind.web.isSlash c = false := by
  have hends := endsAuthority_of_isInner h
  rw [Kind.endsAuthority, Bool.or_eq_false_iff, Bool.or_eq_false_iff] at hends
  exact hends.1.1

/-- Without a slash a path is one part. -/
theorem splitPath_part (hs : ∀ c ∈ s, isInner c = true) : splitPath Kind.web.isSlash s = [s] := by
  induction s with
  | nil => rfl
  | cons c s ih =>
    obtain ⟨hc, hs⟩ := List.forall_mem_cons.1 hs
    rw [splitPath, isSlash_of_isInner hc, if_neg Bool.false_ne_true, ih hs]

/-- Up to the first slash is the first part. -/
theorem splitPath_append (hs : ∀ c ∈ s, isInner c = true) (rest : List Char) :
    splitPath Kind.web.isSlash (s ++ '/' :: rest) = s :: splitPath Kind.web.isSlash rest := by
  induction s with
  | nil => rfl
  | cons c s ih =>
    obtain ⟨hc, hs⟩ := List.forall_mem_cons.1 hs
    rw [List.cons_append, splitPath, isSlash_of_isInner hc, if_neg Bool.false_ne_true, ih hs]

/-- Slashes are not escaped in a path, so its parts are escaped one by one. -/
theorem toList_escape_slashed (hset : set '/' = false) (parts : List (List Char)) :
    (escape set (slashed parts)).toList = slashed (parts.map fun s => (escape set s).toList) := by
  induction parts with
  | nil => rfl
  | cons part parts ih =>
    rw [slashed_cons, escape_slash hset, escape_append, String.toList_append, String.toList_append,
      ih]
    rfl

/-- Between its slashes a path has its parts. -/
theorem splitPath_slashed (hpart : IsPart part) (hparts : ∀ s ∈ parts, IsPart s) :
    splitPath Kind.web.isSlash (part ++ slashed parts) = part :: parts := by
  induction parts generalizing part with
  | nil => exact (congrArg _ (List.append_nil part)).trans (splitPath_part hpart.inner)
  | cons next parts ih =>
    obtain ⟨hnext, hparts⟩ := List.forall_mem_cons.1 hparts
    rw [slashed_cons, splitPath_append hpart.inner, ih hnext hparts]

/-- A part that means no other is added as it is. -/
theorem addPart_of_isPart (hpart : IsPart part) (done : List (List Char)) (last : Bool) :
    addPart .web done part last = part :: done := by
  rw [addPart, hpart.doubleDot, hpart.singleDot, if_neg Bool.false_ne_true,
    if_neg Bool.false_ne_true, if_neg fun h => by cases h.1]

/-- Parts that mean no other part are all there in the end. -/
theorem addParts_of_isPart (hparts : ∀ s ∈ parts, IsPart s) (done : List (List Char)) :
    addParts .web done parts = parts.reverse ++ done := by
  induction parts generalizing done with
  | nil => rfl
  | cons part parts ih =>
    obtain ⟨hpart, hparts⟩ := List.forall_mem_cons.1 hparts
    cases parts with
    | nil => exact addPart_of_isPart hpart done true
    | cons next parts =>
      rw [addParts, addPart_of_isPart hpart, ih hparts, List.reverse_cons (a := part),
        List.append_assoc]
      · rfl
      · exact List.cons_ne_nil _ _

/-- A path is read from its parts. -/
theorem pathBehindAuthority_slashed (hne : parts ≠ []) (hparts : ∀ s ∈ parts, IsPart s) :
    pathBehindAuthority .web (slashed parts) = .segments (parts.map (escape pathSet)) := by
  obtain ⟨part, parts, rfl⟩ := List.exists_cons_of_ne_nil hne
  obtain ⟨hpart, hrest⟩ := List.forall_mem_cons.1 hparts
  show pathOf .web (part ++ slashed parts) = _
  rw [pathOf, splitPath_slashed hpart hrest]
  show Path.segments (((addParts .web [] (part :: parts)).reverse).map _) = _
  rw [addParts_of_isPart hparts, List.append_nil, List.reverse_reverse]

/-! ## Paths that are read -/

/-- Whether a part of a path is there to stay, and is in its written form. -/
def IsWritten (part : String) : Prop := IsPart part.toList ∧ Keeps pathSet part.toList

/-- Whether a text is a part of a path that is there to stay, once it is written. -/
structure IsRaw (s : List Char) : Prop where
  slash : ∀ c ∈ s, Kind.web.isSlash c = false
  doubleDot : isDoubleDot s = false
  singleDot : isSingleDot s = false

/-- A part that is there to stay in a text is one to stay once it is written. -/
theorem IsPart.isRaw (h : IsPart s) : IsRaw s :=
  ⟨fun c hc => isSlash_of_isInner (h.inner c hc), h.doubleDot, h.singleDot⟩

/-- The empty part, which stands behind a last slash, is there to stay. -/
theorem isRaw_nil : IsRaw [] := ⟨fun _ hc => (by cases hc), rfl, rfl⟩

/-- A part is in its written form once it is escaped. -/
theorem isWritten_escape (h : IsRaw s) : IsWritten (escape pathSet s) := by
  have hkeeps := keeps_escape keeps_escapeChars.2.2.1 s
  refine ⟨⟨fun c hc => ?_, isDoubleDot_escape h.doubleDot, isSingleDot_escape h.singleDot⟩, hkeeps⟩
  have hset := hkeeps c hc
  have hslash : Kind.web.isSlash c = false := by
    have hall : (escapeChars.all fun c => !Kind.web.isSlash c) = true := by decide
    rcases mem_escape hc with hc | ⟨hc, -⟩
    · simpa using List.all_eq_true.1 hall c hc
    · exact h.slash c hc
  refine isInner_of_ne (lt_of_fragmentSet (fragmentSet_of_pathSet hset)) fun hmem => ?_
  have hmarks : (['/', '\x5c', '?', '#'].all fun c => Kind.web.isSlash c || pathSet c) = true := by
    decide
  have hmark := List.all_eq_true.1 hmarks c hmem
  rw [hslash, hset] at hmark
  cases hmark

/-- Whatever part comes, those that are kept are there to stay: dots are resolved, not kept. -/
theorem isRaw_of_addPart {done : List (List Char)} (hslash : ∀ c ∈ part, Kind.web.isSlash c = false)
    (hdone : ∀ s ∈ done, IsRaw s) (last : Bool) : ∀ s ∈ addPart .web done part last, IsRaw s := by
  have hdrop : ∀ s ∈ dropLastPart .web done, IsRaw s := by
    cases done with
    | nil => exact hdone
    | cons p rest => exact (List.forall_mem_cons.1 hdone).2
  unfold addPart
  split
  · split
    · exact List.forall_mem_cons.2 ⟨isRaw_nil, hdrop⟩
    · exact hdrop
  · rename_i hdouble
    split
    · split
      · exact List.forall_mem_cons.2 ⟨isRaw_nil, hdone⟩
      · exact hdone
    · rename_i hsingle
      rw [if_neg fun h => by cases h.1]
      exact List.forall_mem_cons.2
        ⟨⟨hslash, Bool.eq_false_iff.2 hdouble, Bool.eq_false_iff.2 hsingle⟩, hdone⟩

/-- The parts that are there in the end mean no other part. -/
theorem isRaw_of_addParts {done : List (List Char)}
    (hparts : ∀ s ∈ parts, ∀ c ∈ s, Kind.web.isSlash c = false) (hdone : ∀ s ∈ done, IsRaw s) :
    ∀ s ∈ addParts .web done parts, IsRaw s := by
  fun_induction addParts .web done parts with
  | case1 => exact hdone
  | case2 done part => exact isRaw_of_addPart (hparts part List.mem_cons_self) hdone true
  | case3 done part rest _ ih =>
    obtain ⟨hpart, hparts⟩ := List.forall_mem_cons.1 hparts
    exact ih hparts (isRaw_of_addPart hpart hdone false)

/-- A path ends with something, if only with an empty part. -/
theorem addParts_ne_nil (hne : parts ≠ []) (done : List (List Char)) :
    addParts .web done parts ≠ [] := by
  have hadd : ∀ (part : List Char) (done : List (List Char)), addPart .web done part true ≠ [] := by
    intro part done
    unfold addPart
    split
    · exact List.cons_ne_nil _ _
    · split
      · exact List.cons_ne_nil _ _
      · rw [if_neg fun h => by cases h.1]
        exact List.cons_ne_nil _ _
  fun_induction addParts .web done parts with
  | case1 => exact absurd rfl hne
  | case2 done part => exact hadd part done
  | case3 done part rest hrest ih => exact ih fun hnil => hrest hnil

/-- Even an empty path has one part. -/
theorem splitPath_ne_nil (isSlash : Char → Bool) (s : List Char) : splitPath isSlash s ≠ [] := by
  fun_cases splitPath isSlash s <;> exact List.cons_ne_nil _ _

/-- Between slashes there is no slash. -/
theorem isSlash_of_splitPath {isSlash : Char → Bool} (h : part ∈ splitPath isSlash s) :
    ∀ c ∈ part, isSlash c = false := by
  fun_induction splitPath isSlash s generalizing part with
  | case1 =>
    obtain rfl := List.mem_singleton.1 h
    exact fun _ hc => by cases hc
  | case2 c rest hc ih =>
    rcases List.mem_cons.1 h with rfl | h
    · exact fun _ hc => by cases hc
    · exact ih h
  | case3 c rest hc hnil ih => exact absurd hnil (splitPath_ne_nil isSlash rest)
  | case4 c rest hc first more hrest ih =>
    rw [hrest] at ih
    rcases List.mem_cons.1 h with rfl | h
    · exact List.forall_mem_cons.2 ⟨Bool.eq_false_iff.2 hc, ih List.mem_cons_self⟩
    · exact ih (List.mem_cons_of_mem _ h)

/-- A path that is read has parts, and they are in their written form. -/
theorem written_of_pathOf (s : List Char) :
    ∃ parts : List String, parts ≠ [] ∧ (∀ part ∈ parts, IsWritten part) ∧
      pathOf .web s = .segments parts := by
  have hraw := isRaw_of_addParts (fun _ => isSlash_of_splitPath (s := s))
    (fun _ (hs : _ ∈ []) => by cases hs)
  refine ⟨((addParts .web [] (splitPath Kind.web.isSlash s)).reverse).map (escape pathSet),
    fun hnil => ?_, fun part hpart => ?_, rfl⟩
  · exact addParts_ne_nil (splitPath_ne_nil _ s) [] (List.reverse_eq_nil_iff.1
      (List.map_eq_nil_iff.1 hnil))
  · obtain ⟨t, ht, rfl⟩ := List.mem_map.1 hpart
    exact isWritten_escape (hraw t (List.mem_reverse.1 ht))

/-- A path behind an authority is read to at least one part, and all are in their written form. -/
theorem written_of_pathBehindAuthority (s : List Char) :
    ∃ parts : List String, parts ≠ [] ∧ (∀ part ∈ parts, IsWritten part) ∧
      pathBehindAuthority .web s = .segments parts := by
  cases s with
  | nil => exact ⟨[""], List.cons_ne_nil _ _,
      List.forall_mem_singleton.2 (isWritten_escape isRaw_nil), rfl⟩
  | cons c rest =>
    rw [pathBehindAuthority]
    split
    · exact written_of_pathOf rest
    · exact written_of_pathOf (c :: rest)

/-! ## Queries and fragments -/

/-- The text of a query and a fragment, each behind its mark. -/
def tailText (query fragment : Option (List Char)) : List Char :=
  query.elim [] (fun q => '?' :: q) ++ fragment.elim [] (fun f => '#' :: f)

variable {query fragment : Option (List Char)}

/-- The query ends at the first number sign, and the fragment does not end. -/
theorem tail_tailText (hquery : ∀ q, query = some q → '#' ∉ q) :
    tail .web (tailText query fragment) =
      (query.map (escape webQuerySet), fragment.map (escape fragmentSet)) := by
  cases query with
  | none => cases fragment <;> rfl
  | some q =>
    have hq : ∀ c ∈ q, (c != '#') = true := fun c hc =>
      bne_iff_ne.2 fun h => hquery q rfl (h ▸ hc)
    have htake : (q ++ fragment.elim [] fun f => '#' :: f).takeWhile (· != '#') = q := by
      rw [List.takeWhile_append_of_pos hq]
      cases fragment <;> exact List.append_nil q
    have hdrop : (q ++ fragment.elim [] fun f => '#' :: f).dropWhile (· != '#') =
        fragment.elim [] fun f => '#' :: f := by
      rw [List.dropWhile_append_of_pos hq]
      cases fragment <;> rfl
    show tail .web ('?' :: (q ++ fragment.elim [] fun f => '#' :: f)) = _
    rw [tail]
    dsimp only
    rw [htake, hdrop]
    cases fragment <;> rfl

/-- A path ends where a query or a fragment begins. -/
theorem beforeQuery_tailText (hs : ∀ c ∈ s, c ≠ '?' ∧ c ≠ '#')
    (query fragment : Option (List Char)) :
    beforeQuery (s ++ tailText query fragment) = (s, tailText query fragment) := by
  have hs' : ∀ c ∈ s, (c != '?' && c != '#') = true := fun c hc => by simpa using hs c hc
  rw [beforeQuery, List.takeWhile_append_of_pos hs', List.dropWhile_append_of_pos hs']
  cases query <;> cases fragment <;> exact congrArg₂ Prod.mk (List.append_nil s) rfl

/-- An inner character begins neither a query nor a fragment. -/
theorem ne_of_isInner (h : isInner c = true) : c ≠ '?' ∧ c ≠ '#' := by
  have hends := endsAuthority_of_isInner h
  rw [Kind.endsAuthority, Bool.or_eq_false_iff, Bool.or_eq_false_iff] at hends
  exact ⟨bne_iff_ne.1 (by rw [bne, hends.1.2]; rfl), bne_iff_ne.1 (by rw [bne, hends.2]; rfl)⟩

/-- A path is made of slashes and of characters of its parts. -/
theorem mem_slashed (h : c ∈ slashed parts) : c = '/' ∨ ∃ part ∈ parts, c ∈ part := by
  obtain ⟨part, hpart, hc⟩ := List.mem_flatMap.1 h
  exact (List.mem_cons.1 hc).imp id fun hc => ⟨part, hpart, hc⟩

/-! ## Whole URLs -/

/-- A text without control characters and spaces is clean. -/
theorem cleaned_of_lt (hs : ∀ c ∈ s, 0x20 < c.toNat) : cleaned s = s := by
  have hedge : ∀ c ∈ s, ¬decide (c.toNat ≤ 0x20) = true := fun c hc h =>
    absurd (of_decide_eq_true h) (Nat.not_le.2 (hs c hc))
  have hstart : s.dropWhile (fun c => decide (c.toNat ≤ 0x20)) = s :=
    List.dropWhile_eq_self_iff.2 fun hlength => hedge _ (List.getElem_mem hlength)
  have hend : s.rdropWhile (fun c => decide (c.toNat ≤ 0x20)) = s :=
    List.rdropWhile_eq_self_iff.2 fun hne => hedge _ (List.getLast_mem hne)
  have hinner : s.filter (fun c => !(c ∈ ['\t', '\n', '\x0d'])) = s := by
    refine List.filter_eq_self.2 fun c hc => ?_
    have hall : (['\t', '\n', '\x0d'].all fun c => decide (c.toNat ≤ 0x20)) = true := by decide
    rw [Bool.not_eq_true']
    exact decide_eq_false fun hmem => hedge c hc (List.all_eq_true.1 hall c hmem)
  show ((s.dropWhile (fun c => decide (c.toNat ≤ 0x20))).rdropWhile
    (fun c => decide (c.toNat ≤ 0x20))).filter _ = s
  rw [hstart, hend, hinner]

/-- Whether a scheme is one of the two that are read here. -/
def IsHttp (scheme : String) : Prop := scheme = "http" ∨ scheme = "https"

instance : DecidablePred IsHttp := fun _ => inferInstanceAs (Decidable (_ ∨ _))

/-- The two schemes of the web are read by its rules. -/
theorem kind_of_isHttp (h : IsHttp scheme) : Kind.of scheme = .web := by
  rcases h with rfl | rfl <;> decide

/-- A scheme of the web ends at the first colon. -/
theorem scanScheme?_of_isHttp (h : IsHttp scheme) (rest : List Char) :
    scanScheme? (scheme.toList ++ ':' :: rest) = some (scheme, rest) := by
  rcases h with rfl | rfl <;> rfl

/-- A URL of the web is its authority, and what is put together behind it. -/
theorem readChars_of_web [Idna] (h : scanScheme? (cleaned s) = some (scheme, rest))
    (hk : Kind.of scheme = .web) :
    readChars s = (scanAuthority scheme (rest.dropWhile Kind.web.isSlash)).map fun p =>
      assemble scheme (some p.1) (pathBehindAuthority .web) p.2 := by
  rw [readChars, h]
  dsimp only
  rw [hk]
  dsimp only
  cases scanAuthority scheme (rest.dropWhile Kind.web.isSlash) <;> rfl

/-- What is put together from a path, a query and a fragment. -/
theorem assemble_slashed (hk : Kind.of scheme = .web) (authority : Option Authority)
    (hne : parts ≠ []) (hparts : ∀ s ∈ parts, IsPart s) (hquery : ∀ q, query = some q → '#' ∉ q) :
    assemble scheme authority (pathBehindAuthority .web)
        (slashed parts ++ tailText query fragment) =
      { scheme, authority, path := .segments (parts.map (escape pathSet)),
        query := query.map (escape webQuerySet), fragment := fragment.map (escape fragmentSet) }
    := by
  have hbefore := beforeQuery_tailText (s := slashed parts) (fun c hc => by
    rcases mem_slashed hc with rfl | ⟨part, hpart, hc⟩
    · decide
    · exact ne_of_isInner ((hparts part hpart).inner c hc)) query fragment
  rw [assemble, hbefore, hk]
  dsimp only
  rw [tail_tailText hquery, pathBehindAuthority_slashed hne hparts]

/-- The text of a URL of the web: its scheme, its authority, the parts of its path and the rest. -/
def webText (scheme : String) (a : Authority) (parts : List (List Char))
    (query fragment : Option (List Char)) : List Char :=
  scheme.toList ++ ':' :: '/' :: '/' ::
    (a.text.toList ++ (slashed parts ++ tailText query fragment))

/-- The text of a URL of the web ends with its fragment, or else with its query. -/
theorem webText_fragment (scheme : String) (a : Authority) (parts : List (List Char))
    (query : Option (List Char)) (f : List Char) :
    webText scheme a parts query (some f) = webText scheme a parts query none ++ '#' :: f := by
  simp [webText, tailText]

/-- A query without a fragment stands at the end of the text. -/
theorem webText_query (scheme : String) (a : Authority) (parts : List (List Char)) (q : List Char) :
    webText scheme a parts (some q) none = webText scheme a parts none none ++ '?' :: q := by
  simp [webText, tailText]

/-- Inner characters are no control characters. -/
theorem lt_of_isInner (h : isInner c = true) : 0x20 < c.toNat :=
  of_decide_eq_true (Bool.and_eq_true_iff.1 h).1

/-- Neither query nor fragment bring a control character into a tail. -/
theorem lt_of_tailText (hquery : ∀ q, query = some q → ∀ c ∈ q, 0x20 < c.toNat)
    (hfragment : ∀ f, fragment = some f → ∀ c ∈ f, 0x20 < c.toNat) :
    ∀ c ∈ tailText query fragment, 0x20 < c.toNat := by
  intro c hc
  rcases List.mem_append.1 hc with hc | hc
  · cases query with
    | none => cases hc
    | some q => exact List.forall_mem_cons.2 ⟨by decide, hquery q rfl⟩ c hc
  · cases fragment with
    | none => cases hc
    | some f => exact List.forall_mem_cons.2 ⟨by decide, hfragment f rfl⟩ c hc

/-- No text of a URL of the web has a control character or a space, so nothing is trimmed off before
it is read. -/
theorem lt_of_webText [Idna] (hscheme : IsHttp scheme) {a : Authority} (ha : a.IsNormal scheme)
    (hparts : ∀ s ∈ parts, IsPart s) (htail : ∀ c ∈ tailText query fragment, 0x20 < c.toNat) :
    ∀ c ∈ webText scheme a parts query fragment, 0x20 < c.toNat := by
  have hfront : (scheme.toList.all fun c => decide (0x20 < c.toNat)) = true := by
    rcases hscheme with rfl | rfl <;> decide
  intro c hc
  rw [webText, List.mem_append, List.mem_cons, List.mem_cons, List.mem_cons, List.mem_append,
    List.mem_append] at hc
  rcases hc with hc | rfl | rfl | rfl | hc | hc | hc
  · exact of_decide_eq_true (List.all_eq_true.1 hfront c hc)
  · decide
  · decide
  · decide
  · exact lt_of_isInner (ha.inner_text.2 c hc)
  · rcases mem_slashed hc with rfl | ⟨part, hpart, hc⟩
    · decide
    · exact lt_of_isInner ((hparts part hpart).inner c hc)
  · exact htail c hc

/-- How the text of a URL of the web is read. -/
theorem readChars_web [Idna] (hscheme : IsHttp scheme) {a : Authority} (ha : a.IsNormal scheme)
    (hne : parts ≠ []) (hparts : ∀ s ∈ parts, IsPart s)
    (hquery : ∀ q, query = some q → ∀ c ∈ q, 0x20 < c.toNat ∧ c ≠ '#')
    (hfragment : ∀ f, fragment = some f → ∀ c ∈ f, 0x20 < c.toNat) :
    readChars (webText scheme a parts query fragment) =
      .ok { scheme, authority := some a, path := .segments (parts.map (escape pathSet)),
            query := query.map (escape webQuerySet), fragment := fragment.map (escape fragmentSet) }
    := by
  have hk := kind_of_isHttp hscheme
  obtain ⟨hane, hinner⟩ := ha.inner_text
  obtain ⟨first, more, hfirst⟩ := List.exists_cons_of_ne_nil hane
  obtain ⟨part, others, hsplit⟩ := List.exists_cons_of_ne_nil hne
  have htail := lt_of_tailText (fun q hq c hc => (hquery q hq c hc).1) hfragment
  have hmark : ∀ q, query = some q → '#' ∉ q := fun q hq hmem => (hquery q hq '#' hmem).2 rfl
  have hscan : scanScheme? (cleaned (webText scheme a parts query fragment)) = some (scheme,
      '/' :: '/' :: (a.text.toList ++ (slashed parts ++ tailText query fragment))) := by
    rw [cleaned_of_lt (lt_of_webText hscheme ha hparts htail)]
    exact scanScheme?_of_isHttp hscheme _
  -- The slashes in front of the authority are skipped, and its first character is none.
  have hslash : ('/' :: '/' :: (a.text.toList ++ (slashed parts ++
      tailText query fragment))).dropWhile Kind.web.isSlash =
        a.text.toList ++ (slashed parts ++ tailText query fragment) := by
    have hfirst' : ¬Kind.web.isSlash first = true := by
      rw [isSlash_of_isInner (hinner first (hfirst ▸ List.mem_cons_self))]
      exact Bool.false_ne_true
    show (a.text.toList ++ _).dropWhile _ = _
    rw [hfirst, List.cons_append, List.dropWhile_cons_of_neg hfirst']
  have hauthority := scanAuthority_text hk ha (part ++ slashed others ++ tailText query fragment)
  rw [readChars_of_web hscan hk, hslash, hsplit]
  show (scanAuthority scheme (a.text.toList ++ '/' :: (part ++ slashed others ++ _))).map _ = _
  rw [hauthority, ← hsplit, ← assemble_slashed hk (some a) hne hparts hmark, hsplit]
  rfl

/-! ## URLs that are read -/

/-- What holds of every URL of the web that is read. -/
structure IsWeb [Idna] (u : Url) : Prop where
  scheme : IsHttp u.scheme
  authority : ∃ a, u.authority = some a ∧ a.IsNormal u.scheme
  path : ∃ parts : List String, parts ≠ [] ∧ (∀ part ∈ parts, IsWritten part) ∧
    u.path = .segments parts
  query : ∀ q, u.query = some q → Keeps webQuerySet q.toList
  fragment : ∀ f, u.fragment = some f → Keeps fragmentSet f.toList

/-- The query and the fragment are read in their written forms. -/
theorem keeps_of_tail (s : List Char) :
    (∀ q, (tail .web s).1 = some q → Keeps webQuerySet q.toList) ∧
      ∀ f, (tail .web s).2 = some f → Keeps fragmentSet f.toList := by
  unfold tail
  split
  · dsimp only
    refine ⟨fun q hq => ?_, fun f hf => ?_⟩
    · rw [← Option.some.inj hq]
      exact keeps_escape keeps_escapeChars.1 _
    · split at hf
      · rw [← Option.some.inj hf]
        exact keeps_escape keeps_escapeChars.2.1 _
      · cases hf
  · dsimp only
    refine ⟨fun q hq => (by cases hq), fun f hf => ?_⟩
    split at hf
    · rw [← Option.some.inj hf]
      exact keeps_escape keeps_escapeChars.2.1 _
    · cases hf

/-- Reading a file's URL keeps its scheme. -/
theorem scheme_of_readFile [Idna] {u : Url} (h : readFile s = .ok u) : u.scheme = "file" := by
  unfold readFile at h
  dsimp only at h
  split at h
  · split at h
    · obtain ⟨⟨host, rest⟩, -, h⟩ := bind_eq_ok.1 h
      cases h
      rfl
    · cases h
      rfl
  · cases h
    rfl

/-- A URL of the web is read from its authority and what is behind it. -/
theorem exists_of_readChars [Idna] {u : Url} (h : readChars s = .ok u) (hscheme : IsHttp u.scheme) :
    ∃ a rest rest', scanAuthority u.scheme rest = .ok (a, rest') ∧
      u = assemble u.scheme (some a) (pathBehindAuthority .web) rest' := by
  have hk := kind_of_isHttp hscheme
  -- A URL that is read under a scheme of the web was read by the branch for such schemes.
  cases hscan : scanScheme? (cleaned s) with
  | none =>
    rw [readChars, hscan] at h
    cases h
  | some p =>
    obtain ⟨scheme, rest⟩ := p
    have hread := h
    rw [readChars, hscan] at hread
    dsimp only at hread
    split at hread
    · rw [scheme_of_readFile hread] at hk
      exact absurd hk (by decide)
    · rename_i hkind
      rw [readChars_of_web hscan hkind] at h
      obtain ⟨⟨a, rest'⟩, hauthority, rfl⟩ := map_eq_ok.1 h
      exact ⟨a, _, rest', hauthority, rfl⟩
    · rename_i hkind
      have hsame : u.scheme = scheme := by
        split at hread
        · obtain ⟨p, -, hread⟩ := bind_eq_ok.1 hread
          cases hread
          rfl
        · cases hread
          rfl
        · cases hread
          rfl
      rw [hsame, hkind] at hk
      cases hk

/-- **A URL that was read with a scheme of the web has all its parts in their written form.** -/
theorem isWeb_of_readChars [Idna] {u : Url} (h : readChars s = .ok u) (hscheme : IsHttp u.scheme) :
    u.IsWeb := by
  have hk := kind_of_isHttp hscheme
  obtain ⟨a, rest, rest', hauthority, hu⟩ := exists_of_readChars h hscheme
  obtain ⟨parts, hne, hwritten, hpath⟩ := written_of_pathBehindAuthority (beforeQuery rest').1
  obtain ⟨hquery, hfragment⟩ := keeps_of_tail (beforeQuery rest').2
  rw [assemble, hk] at hu
  refine ⟨hscheme, ⟨a, ?_, normal_of_scanAuthority hk hauthority⟩, ⟨parts, hne, hwritten, ?_⟩,
    ?_, ?_⟩
  · rw [hu]
  · rw [hu]
    exact hpath
  · rw [hu]
    exact hquery
  · rw [hu]
    exact hfragment

/-! ## Texts of URLs -/

/-- The text of a path has a slash in front of each part. -/
theorem Path.toList_text (parts : List String) :
    (Path.segments parts).text.toList = slashed (parts.map String.toList) := by
  rw [Path.text, String.toList_join, List.flatMap_map, slashed, List.flatMap_map]
  refine congrArg (List.flatMap · parts) (funext fun s => ?_)
  rw [String.toList_append]
  rfl

/-- A query or a fragment that is there stands behind its mark. -/
theorem toList_behind (mark : Char) (part : Option String) :
    (behind (String.singleton mark) part).toList =
      (part.map String.toList).elim [] fun s => mark :: s := by
  cases part with
  | none => rfl
  | some s =>
    rw [behind, String.toList_append, String.toList_singleton]
    rfl

/-- The text of a URL is put together from the texts of its parts. -/
theorem toList_text {u : Url} {a : Authority} {parts : List String} (ha : u.authority = some a)
    (hpath : u.path = .segments parts) :
    u.text.toList = webText u.scheme a (parts.map String.toList) (u.query.map String.toList)
      (u.fragment.map String.toList) := by
  have hquery := toList_behind '?' u.query
  have hfragment := toList_behind '#' u.fragment
  rw [text, ha, pathAndQuery, hpath]
  dsimp only
  rw [String.toList_append, String.toList_append, String.toList_append, String.toList_append,
    String.toList_append, String.toList_append, Path.toList_text, webText, tailText]
  show u.scheme.toList ++ [':'] ++ ('/' :: '/' :: a.text.toList) ++ (slashed _ ++
    (behind (String.singleton '?') u.query).toList) ++
    (behind (String.singleton '#') u.fragment).toList = _
  rw [hquery, hfragment]
  simp only [List.append_assoc, List.cons_append, List.nil_append]

/-! ## Reading URLs again -/

/-- A text that is in its written form is not changed by escaping it. -/
theorem map_escape_toList {o : Option String} (h : ∀ t, o = some t → Keeps set t.toList) :
    (o.map String.toList).map (escape set) = o := by
  cases o with
  | none => rfl
  | some t => exact congrArg some (escape_toList (h t rfl))

/-- Nor are the parts of a path that is in its written form. -/
theorem parts_escape_toList {parts : List String} (h : ∀ part ∈ parts, IsWritten part) :
    (parts.map String.toList).map (escape pathSet) = parts := by
  rw [List.map_map]
  exact (List.map_congr_left fun part hpart => escape_toList (h part hpart).2).trans (List.map_id _)

namespace IsWeb

variable [Idna] {u : Url}

/-- A URL that is read has no character in its query that ends it or that is taken off. -/
theorem forall_query (h : u.IsWeb) :
    ∀ q, u.query.map String.toList = some q → ∀ c ∈ q, 0x20 < c.toNat ∧ c ≠ '#' := by
  intro q hq
  obtain ⟨t, ht, rfl⟩ := Option.map_eq_some_iff.1 hq
  exact fun c hc => lt_of_webQuerySet (h.query t ht c hc)

/-- No control character stands in the fragment of a URL of the web. -/
theorem forall_fragment (h : u.IsWeb) :
    ∀ f, u.fragment.map String.toList = some f → ∀ c ∈ f, 0x20 < c.toNat := by
  intro f hf
  obtain ⟨t, ht, rfl⟩ := Option.map_eq_some_iff.1 hf
  exact fun c hc => lt_of_fragmentSet (h.fragment t ht c hc)

/-- The parts of its path are there to stay. -/
theorem isPart (h : u.IsWeb) {parts : List String} (hpath : u.path = .segments parts) :
    ∀ s ∈ parts.map String.toList, IsPart s := by
  obtain ⟨parts', -, hwritten, hpath'⟩ := h.path
  obtain rfl : parts' = parts := Path.segments.inj (hpath'.symm.trans hpath)
  exact List.forall_mem_map.2 fun part hpart => (hwritten part hpart).1

/-- Its path is in the written form, slashes included. -/
theorem keeps_path (h : u.IsWeb) : Keeps pathSet u.path.text.toList := by
  obtain ⟨parts, -, hwritten, hpath⟩ := h.path
  rw [hpath, Path.toList_text]
  intro c hc
  rcases mem_slashed hc with rfl | ⟨s, hs, hc⟩
  · decide
  · obtain ⟨part, hpart, rfl⟩ := List.mem_map.1 hs
    exact (hwritten part hpart).2 c hc

/-- With another query or fragment, the rest of a URL is read as before. -/
theorem read_tail (h : u.IsWeb) {a : Authority} {parts : List String} (ha : u.authority = some a)
    (hpath : u.path = .segments parts) {query fragment : Option (List Char)}
    (hquery : ∀ q, query = some q → ∀ c ∈ q, 0x20 < c.toNat ∧ c ≠ '#')
    (hfragment : ∀ f, fragment = some f → ∀ c ∈ f, 0x20 < c.toNat) :
    readChars (webText u.scheme a (parts.map String.toList) query fragment) =
      .ok { u with query := query.map (escape webQuerySet),
                   fragment := fragment.map (escape fragmentSet) } := by
  obtain ⟨a', ha', hnormal⟩ := h.authority
  obtain ⟨parts', hne, hwritten, hpath'⟩ := h.path
  obtain rfl : a' = a := Option.some.inj (ha'.symm.trans ha)
  obtain rfl : parts' = parts := Path.segments.inj (hpath'.symm.trans hpath)
  rw [readChars_web h.scheme hnormal (mt List.map_eq_nil_iff.1 hne) (h.isPart hpath) hquery
    hfragment, parts_escape_toList hwritten, ← ha, ← hpath]

end IsWeb

end LoadReplay.Url
