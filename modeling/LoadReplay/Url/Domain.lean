import LoadReplay.Url.Escape

/-!
# Domains

The name of a host may use any script.  What its ASCII form is depends on the tables of Unicode and
on the rules for international domain names, which are not part of this development: whoever reads a
URL brings them along as an `Idna`, and only two facts about them are relied on.

`Idna.ascii` is enough for names that use no other script.
-/

namespace LoadReplay.Url

/-- How the ASCII form of a domain is found. -/
class Idna where
  /-- The ASCII form of the domain with these bytes, unless they are no domain. -/
  toAscii : List UInt8 → Option (List Char)
  /-- An ASCII form is its own ASCII form. -/
  toAscii_self {bytes : List UInt8} {name : List Char} :
    toAscii bytes = some name → toAscii (utf8 name) = some name
  /-- Numbers with points between them are their own ASCII form. -/
  toAscii_numbers {name : List Char} :
    (∀ c ∈ name, Number.isDigit c ∨ c = '.') → toAscii (utf8 name) = some name

namespace Idna

/-! ## Names without other scripts -/

/-- The ASCII form of a name without characters of other scripts: the name in lower case. -/
def asciiForm? (bytes : List UInt8) : Option (List Char) :=
  if bytes.all (· < 128) then some (Text.lower (bytes.map fun b => Char.ofNat b.toNat)) else none

/-- Whether a character is its own ASCII form. -/
def IsPlain (c : Char) : Prop := c.toNat < 128 ∧ Text.lowerChar c = c

/-- ASCII in lower case is plain. -/
theorem isPlain_lowerChar {b : UInt8} (h : b < 128) :
    IsPlain (Text.lowerChar (Char.ofNat b.toNat)) := by
  have hall : ∀ n : Fin 128, (Text.lowerChar (Char.ofNat n)).toNat < 128 ∧
      Text.lowerChar (Text.lowerChar (Char.ofNat n)) = Text.lowerChar (Char.ofNat n) := by
    decide +kernel
  exact hall ⟨b.toNat, UInt8.lt_iff_toNat_lt.1 h⟩

/-- A plain character has one byte, which stands for it. -/
theorem utf8EncodeChar_plain {c : Char} (h : c.toNat < 128) :
    String.utf8EncodeChar c = [UInt8.ofNat c.toNat] := by
  have hall : ∀ n : Fin 128, String.utf8EncodeChar (Char.ofNat n) =
      [UInt8.ofNat (Char.ofNat n).toNat] := by decide +kernel
  exact Text.forall_char_lt (P := fun c => String.utf8EncodeChar c = [UInt8.ofNat c.toNat]) hall h

/-- Plain characters are their own bytes. -/
theorem utf8_plain {name : List Char} (h : ∀ c ∈ name, IsPlain c) :
    utf8 name = name.map fun c => UInt8.ofNat c.toNat := by
  induction name with
  | nil => rfl
  | cons c rest ih =>
    obtain ⟨hc, hrest⟩ := List.forall_mem_cons.1 h
    rw [utf8, List.flatMap_cons, utf8EncodeChar_plain hc.1, List.map_cons]
    exact congrArg _ (ih hrest)

/-- A name of plain characters stays as it is. -/
theorem asciiForm?_plain {name : List Char} (h : ∀ c ∈ name, IsPlain c) :
    asciiForm? (utf8 name) = some name := by
  have hbyte : ∀ c ∈ name, (UInt8.ofNat c.toNat).toNat = c.toNat := by
    intro c hc
    have hlt := (h c hc).1
    exact UInt8.toNat_ofNat_of_lt' (Nat.lt_trans hlt (by decide))
  have hsmall : (utf8 name).all (· < 128) = true := by
    rw [utf8_plain h, List.all_map, List.all_eq_true]
    intro c hc
    exact decide_eq_true (UInt8.lt_iff_toNat_lt.2 (by rw [hbyte c hc]; exact (h c hc).1))
  have hback : ((utf8 name).map fun b => Char.ofNat b.toNat) = name := by
    rw [utf8_plain h, List.map_map]
    refine (List.map_congr_left fun c hc => ?_).trans (List.map_id _)
    rw [Function.comp_apply, hbyte c hc, Char.ofNat_toNat, id]
  have hlower : Text.lower name = name :=
    (List.map_congr_left fun c hc => (h c hc).2).trans (List.map_id _)
  rw [asciiForm?, if_pos hsmall, hback, hlower]

/-- What is found as an ASCII form is plain. -/
theorem isPlain_of_asciiForm? {bytes : List UInt8} {name : List Char}
    (h : asciiForm? bytes = some name) : ∀ c ∈ name, IsPlain c := by
  rw [asciiForm?] at h
  split at h
  · rename_i hbytes
    cases h
    intro c hc
    obtain ⟨_, hmem, rfl⟩ := List.mem_map.1 hc
    obtain ⟨b, hb, rfl⟩ := List.mem_map.1 hmem
    exact isPlain_lowerChar (of_decide_eq_true (List.all_eq_true.1 hbytes b hb))
  · cases h

/-- Digits and points are plain. -/
theorem isPlain_number {c : Char} (h : Number.isDigit c ∨ c = '.') : IsPlain c := by
  have hbound : c.toNat < 128 := by
    rcases h with h | rfl
    · have hnine : c.toNat ≤ '9'.toNat := of_decide_eq_true (Bool.and_eq_true_iff.1 h).2
      exact Nat.lt_of_le_of_lt hnine (by decide)
    · decide
  have hall : ∀ n : Fin 128, Number.isDigit (Char.ofNat n) ∨ Char.ofNat n = '.' →
      Text.lowerChar (Char.ofNat n) = Char.ofNat n := by decide +kernel
  exact ⟨hbound, Text.forall_char_lt
    (P := fun c => Number.isDigit c ∨ c = '.' → Text.lowerChar c = c) hall hbound h⟩

/-- The ASCII forms of names that use no other script.  Labels that are ASCII forms already are not
looked into. -/
@[reducible]
def ascii : Idna where
  toAscii := asciiForm?
  toAscii_self h := asciiForm?_plain (isPlain_of_asciiForm? h)
  toAscii_numbers h := asciiForm?_plain fun c hc => isPlain_number (h c hc)

/-- Where no other scripts are used. -/
scoped instance instAscii : Idna := ascii

end Idna

end LoadReplay.Url
