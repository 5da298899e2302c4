import LoadReplay.Number.Whole
import LoadReplay.Text.Split

/-!
# Percent encoding

Which characters are written as percent and two hexadecimal digits for each of their UTF-8 bytes, in
the different parts of a URL.
-/

namespace LoadReplay.Url

/-- The characters that some part of a URL writes encoded. -/
abbrev EscapeSet := Char → Bool

/-- Control characters and everything beyond ASCII. -/
def controls : EscapeSet := fun c => c.toNat < 0x20 || 0x7E < c.toNat

/-- The set for queries. -/
def querySet : EscapeSet := fun c => controls c || c ∈ [' ', '\x22', '#', '<', '>']

/-- The set for queries under the schemes of the web. -/
def webQuerySet : EscapeSet := fun c => querySet c || c == '\x27'

/-- The set for fragments. -/
def fragmentSet : EscapeSet := fun c => controls c || c ∈ [' ', '\x22', '<', '>', '\x60']

/-- The set for paths. -/
def pathSet : EscapeSet := fun c => fragmentSet c || c ∈ ['#', '?', '\x7b', '\x7d']

/-- The set for user names and passwords. -/
def userinfoSet : EscapeSet := fun c =>
  pathSet c || c ∈ ['/', ':', ';', '=', '@', '[', '\x5c', ']', '^', '|']

/-- A byte as percent and two digits. -/
def escapeByte (b : UInt8) : List Char :=
  let digit (n : Nat) : Char := ("0123456789ABCDEF".toList)[n]?.getD '0'
  ['%', digit (b.toNat / 16), digit (b.toNat % 16)]

/-- A character, encoded if the set has it. -/
def escapeChar (set : EscapeSet) (c : Char) : List Char :=
  if set c then (String.ofList [c]).toUTF8.toList.flatMap escapeByte else [c]

/-- A text with the characters of a set encoded. -/
def escape (set : EscapeSet) (s : List Char) : String := String.ofList (s.flatMap (escapeChar set))

/-- The code point of two hexadecimal digits. -/
def escapedCode? (a b : Char) : Option Nat := Number.readDigits 16 [a, b]

/-- The bytes of a text. -/
def utf8 (s : List Char) : List UInt8 := s.flatMap String.utf8EncodeChar

/-- The bytes of a text with every percent and two digits replaced by the byte with that code. -/
def unescape : List Char → List UInt8
  | '%' :: a :: b :: rest =>
    match escapedCode? a b with
    | some n => UInt8.ofNat n :: unescape rest
    | none => String.utf8EncodeChar '%' ++ unescape (a :: b :: rest)
  | c :: rest => String.utf8EncodeChar c ++ unescape rest
  | [] => []
termination_by s => s.length

end LoadReplay.Url
