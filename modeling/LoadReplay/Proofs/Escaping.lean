import LoadReplay.Proofs.Fingerprint
import LoadReplay.Proofs.Trimming
import LoadReplay.Url.Reader
import Mathlib.Data.List.Infix

/-!
# Percent encoding

A text in which no character is left that a part of a URL writes encoded is written as it is
(`escape_of_kept`), and what is written encoded is such a text, as long as the percent sign and the
digits themselves are not to be encoded (`keeps_escape`).  So encoding twice is encoding once.

Encoding does not make up parts of a path that mean another part: what is written encoded never says
a dot or two (`isSingleDot_escape`, `isDoubleDot_escape`).
-/

namespace LoadReplay.Url

/-! ## Texts that are written as they are -/

/-- Whether no character of a text is to be encoded. -/
def Keeps (set : EscapeSet) (s : List Char) : Prop := ∀ c ∈ s, set c = false

/-- The characters that encoded characters are written with. -/
def escapeChars : List Char :=
  ['%', '0', '1', '2', '3', '4', '5', '6', '7', '8', '9', 'A', 'B', 'C', 'D', 'E', 'F']

variable {set : EscapeSet} {s : List Char} {c : Char}

/-- A character that is kept is not escaped. -/
theorem escapeChar_of_kept (h : set c = false) : escapeChar set c = [c] := by
  rw [escapeChar, h]
  rfl

/-- A text of such characters stays as it is. -/
theorem flatMap_escapeChar_of_kept (h : Keeps set s) : s.flatMap (escapeChar set) = s := by
  induction s with
  | nil => rfl
  | cons c s ih =>
    obtain ⟨hc, hs⟩ := List.forall_mem_cons.1 h
    rw [List.flatMap_cons, escapeChar_of_kept hc, ih hs]
    rfl

/-- What has no character that is to be encoded is written as it is. -/
theorem escape_of_kept (h : Keeps set s) : escape set s = String.ofList s := by
  rw [escape, flatMap_escapeChar_of_kept h]

/-- Texts are escaped one behind the other. -/
theorem escape_append (set : EscapeSet) (s s' : List Char) :
    escape set (s ++ s') = escape set s ++ escape set s' := by
  rw [escape, escape, escape, List.flatMap_append, String.ofList_append]

/-- A text that is in its written form stays as it is. -/
theorem escape_toList {t : String} (h : Keeps set t.toList) : escape set t.toList = t := by
  rw [escape_of_kept h, String.ofList_toList]

/-- A slash stands for itself where it is kept. -/
theorem escape_slash (hset : set '/' = false) (s : List Char) :
    escape set ('/' :: s) = "/" ++ escape set s := by
  rw [← List.singleton_append, escape_append, escape_of_kept (List.forall_mem_singleton.2 hset)]

/-- An escaped byte is a percent sign with two hexadecimal digits. -/
theorem mem_escapeByte {b : UInt8} (h : c ∈ escapeByte b) : c ∈ escapeChars := by
  have hdigit : ∀ n : Fin 16, (("0123456789ABCDEF".toList)[n.val]?).getD '0' ∈ escapeChars := by
    decide
  have hb : b.toNat < 256 := b.toNat_lt
  rw [escapeByte, List.mem_cons, List.mem_cons, List.mem_singleton] at h
  rcases h with rfl | rfl | rfl
  · exact List.mem_cons_self
  · exact hdigit ⟨b.toNat / 16, by omega⟩
  · exact hdigit ⟨b.toNat % 16, by omega⟩

/-- A character of what is written encoded is one of the digits or the percent sign, or has been
there before. -/
theorem mem_escape (h : c ∈ (escape set s).toList) : c ∈ escapeChars ∨ c ∈ s ∧ set c = false := by
  rw [escape, String.toList_ofList, List.mem_flatMap] at h
  obtain ⟨d, hd, h⟩ := h
  rw [escapeChar] at h
  by_cases hset : set d = true
  · rw [if_pos hset] at h
    obtain ⟨b, -, h⟩ := List.mem_flatMap.1 h
    exact .inl (mem_escapeByte h)
  · rw [if_neg hset] at h
    obtain rfl := List.mem_singleton.1 h
    exact .inr ⟨hd, Bool.eq_false_iff.2 hset⟩

/-- What is written encoded has no character that is to be encoded. -/
theorem keeps_escape (hset : Keeps set escapeChars) (s : List Char) :
    Keeps set (escape set s).toList := by
  intro c hc
  rcases mem_escape hc with hc | ⟨-, hc⟩
  · exact hset c hc
  · exact hc

/-- The bytes of a character are those of its text. -/
theorem bytes_singleton (c : Char) :
    (String.ofList [c]).toUTF8.toList = String.utf8EncodeChar c := by
  rw [bytes_toList]
  show (String.ofList [c]).toByteArray.data.toList = _
  rw [String.toByteArray_ofList, List.utf8Encode_singleton, List.toList_data_toByteArray]

/-- Nothing but an empty text is written as an empty one. -/
theorem escape_eq_nil : (escape set s).toList = [] ↔ s = [] := by
  rw [escape, String.toList_ofList]
  cases s with
  | nil => exact iff_of_true rfl rfl
  | cons c s =>
    refine iff_of_false (fun h => ?_) (List.cons_ne_nil c s)
    rw [List.flatMap_cons, List.append_eq_nil_iff] at h
    have hchar := h.1
    rw [escapeChar] at hchar
    split at hchar
    · obtain ⟨b, more, hbytes⟩ := List.exists_cons_of_ne_nil (String.utf8EncodeChar_ne_nil (c := c))
      rw [bytes_singleton, hbytes] at hchar
      cases hchar
    · cases hchar

/-- Whether a text is kept can be found out character by character. -/
theorem keeps_iff : Keeps set s ↔ (s.all fun c => !set c) = true := by
  simp only [Keeps, List.all_eq_true, Bool.not_eq_true']

-- Through `List.all`, since a quantifier would be decided by going through all characters.
instance : Decidable (Keeps set s) := decidable_of_iff' _ keeps_iff

/-! ## The sets -/

/-- Escapes are made of characters that no set escapes. -/
theorem keeps_escapeChars : Keeps webQuerySet escapeChars ∧ Keeps fragmentSet escapeChars ∧
    Keeps pathSet escapeChars ∧ Keeps userinfoSet escapeChars := by
  decide

/-- What is kept in a path is kept in a fragment. -/
theorem fragmentSet_of_pathSet (h : pathSet c = false) : fragmentSet c = false :=
  (Bool.or_eq_false_iff.1 h).1

/-- What is kept in a user name is kept in a path. -/
theorem pathSet_of_userinfoSet (h : userinfoSet c = false) : pathSet c = false :=
  (Bool.or_eq_false_iff.1 h).1

/-- What is neither a control character nor a space is above both. -/
theorem lt_of_controls (h : controls c = false) (hspace : c ≠ ' ') : 0x20 < c.toNat := by
  have hlow : ¬c.toNat < 0x20 := of_decide_eq_false (Bool.or_eq_false_iff.1 h).1
  have hne : c.toNat ≠ 0x20 := fun h => hspace (Char.toNat_inj.1 h)
  omega

/-- No character of a fragment is a control character or a space. -/
theorem lt_of_fragmentSet (h : fragmentSet c = false) : 0x20 < c.toNat := by
  obtain ⟨hcontrols, hmarks⟩ := Bool.or_eq_false_iff.1 h
  refine lt_of_controls hcontrols ?_
  rintro rfl
  exact absurd hmarks (by decide)

/-- No character of a query is a control character or a space, or begins a fragment. -/
theorem lt_of_webQuerySet (h : webQuerySet c = false) : 0x20 < c.toNat ∧ c ≠ '#' := by
  obtain ⟨hcontrols, hmarks⟩ := Bool.or_eq_false_iff.1 (Bool.or_eq_false_iff.1 h).1
  refine ⟨lt_of_controls hcontrols ?_, ?_⟩ <;>
  · rintro rfl
    exact absurd hmarks (by decide)

/-! ## Dots -/

/-- Whether a percent sign in front of a text begins an encoded dot. -/
def encodesDot : List Char → Bool
  | '%' :: x :: y :: _ => x == '2' && y == 'e'
  | _ => true

/-- A text that means a dot or two has no other encoded character. -/
theorem encodesDot_of_dots {s before behind : List Char}
    (h : isDoubleDot s = true ∨ isSingleDot s = true)
    (hs : Text.lower s = before ++ behind) : encodesDot behind = true := by
  have hall : ∀ t ∈ ["..", ".%2e", "%2e.", "%2e%2e", ".", "%2e"],
      (t.toList.tails.all encodesDot) = true := by decide
  have hmem : Text.lower s ∈ ["..", ".%2e", "%2e.", "%2e%2e", ".", "%2e"].map String.toList := by
    rw [isDoubleDot, isSingleDot, decide_eq_true_eq, decide_eq_true_eq, ← List.mem_append,
      ← List.map_append] at h
    exact h
  obtain ⟨t, ht, htext⟩ := List.mem_map.1 hmem
  have hsuffix : behind <:+ t.toList := by rw [htext, hs]; exact List.suffix_append _ _
  exact List.all_eq_true.1 (hall t ht) _ ((List.mem_tails _ _).2 hsuffix)

/-- Only a dot is encoded in a way that begins like an encoded dot. -/
theorem eq_dot_of_utf8 {more : List UInt8} (h : String.utf8EncodeChar c = 0x2E :: more) :
    c = '.' := by
  have hdot : String.utf8EncodeChar '.' = [0x2E] := by decide
  have hdecode := @ByteArray.utf8DecodeChar?_utf8EncodeChar_append more.toByteArray '.'
  rw [hdot, ← List.toByteArray_append, List.singleton_append, ← h] at hdecode
  have hself := @ByteArray.utf8DecodeChar?_utf8EncodeChar_append ByteArray.empty c
  rw [ByteArray.append_empty, hdecode] at hself
  exact (Option.some.inj hself).symm

/-- An encoded byte is a dot if it reads like one. -/
theorem eq_of_encodesDot {b : UInt8} {more : List Char}
    (h : encodesDot (Text.lower (escapeByte b ++ more)) = true) : b = 0x2E := by
  have hdigits : ∀ n : Fin 16,
      (Text.lowerChar ((("0123456789ABCDEF".toList)[n.val]?).getD '0') = '2' → n = 2) ∧
      (Text.lowerChar ((("0123456789ABCDEF".toList)[n.val]?).getD '0') = 'e' → n = 14) := by
    decide
  have hb : b.toNat < 256 := b.toNat_lt
  obtain ⟨hhigh, hlow⟩ := Bool.and_eq_true_iff.1 h
  have hhigh' := (hdigits ⟨b.toNat / 16, by omega⟩).1 (beq_iff_eq.1 hhigh)
  have hlow' := (hdigits ⟨b.toNat % 16, by omega⟩).2 (beq_iff_eq.1 hlow)
  have h₁ : b.toNat / 16 = 2 := congrArg Fin.val hhigh'
  have h₂ : b.toNat % 16 = 14 := congrArg Fin.val hlow'
  exact UInt8.toNat_inj.1 (by show b.toNat = 46; omega)

/-- Encoding does not make up dots. -/
theorem keeps_of_dots (hset : set '.' = false)
    (h : isDoubleDot (s.flatMap (escapeChar set)) = true ∨
      isSingleDot (s.flatMap (escapeChar set)) = true) : Keeps set s := by
  intro c hc
  by_contra hencoded
  obtain ⟨before, behind, rfl⟩ := List.append_of_mem hc
  have hchar : escapeChar set c = (String.utf8EncodeChar c).flatMap escapeByte := by
    rw [escapeChar, if_pos (Bool.of_not_eq_false hencoded), bytes_singleton]
  obtain ⟨b, more, hbytes⟩ := List.exists_cons_of_ne_nil (String.utf8EncodeChar_ne_nil (c := c))
  have hlower : Text.lower ((before ++ c :: behind).flatMap (escapeChar set)) =
      Text.lower (before.flatMap (escapeChar set)) ++ Text.lower (escapeByte b ++
        (more.flatMap escapeByte ++ behind.flatMap (escapeChar set))) := by
    rw [List.flatMap_append, List.flatMap_cons, hchar, hbytes, List.flatMap_cons, Text.lower,
      List.map_append, List.append_assoc]
    rfl
  obtain rfl := eq_of_encodesDot (encodesDot_of_dots h hlower)
  obtain rfl := eq_dot_of_utf8 hbytes
  exact hencoded hset

/-- Escaping makes no part of a path mean the one above. -/
theorem isDoubleDot_escape (h : isDoubleDot s = false) :
    isDoubleDot (escape pathSet s).toList = false := by
  rw [escape, String.toList_ofList]
  refine Bool.eq_false_iff.2 fun hdots => ?_
  rw [flatMap_escapeChar_of_kept (keeps_of_dots (by decide) (.inl hdots)), h] at hdots
  cases hdots

/-- Nor does it make a part mean itself. -/
theorem isSingleDot_escape (h : isSingleDot s = false) :
    isSingleDot (escape pathSet s).toList = false := by
  rw [escape, String.toList_ofList]
  refine Bool.eq_false_iff.2 fun hdots => ?_
  rw [flatMap_escapeChar_of_kept (keeps_of_dots (by decide) (.inr hdots)), h] at hdots
  cases hdots

end LoadReplay.Url
