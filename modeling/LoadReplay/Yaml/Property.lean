import LoadReplay.Number.Whole
import LoadReplay.Yaml.Cursor
import LoadReplay.Yaml.Token

/-!
# Directives, anchors and tags of YAML

What stands before a document or before a node and says something of it.
-/

namespace LoadReplay.Yaml

/-- Whether a character may stand in a name. -/
def isNameSign (c : Char) : Bool :=
  Number.isDigit c || ('a' ≤ c && c ≤ 'z') || ('A' ≤ c && c ≤ 'Z') || c == '_' || c == '-'

/-- Reads a name; it may be empty. -/
def scanName (c : Cursor) : String × Cursor :=
  let name := c.rest.takeWhile isNameSign
  (String.ofList name, c.skip name.length)

/-- Whether an anchor or an alias may end before a text. -/
def endsAnchor : List Char → Bool
  | [] => true
  | c :: rest =>
    endsWord (c :: rest) || c ∈ ['?', ':', ',', ']', '\x7d', '%', '@', '\x60']

/-- Reads the name behind the sign of an anchor or an alias. -/
def scanAnchor (c : Cursor) : Option (String × Cursor) :=
  let (name, c) := scanName c
  if name.isEmpty ∨ ¬endsAnchor c.rest then none else some (name, c)

/-! ## Tags -/

/-- Whether a character may stand in the ending of a tag; between angle brackets there are more. -/
def isTagSign (wide : Bool) (c : Char) : Bool :=
  isNameSign c || c ∈ [';', '/', '?', ':', '@', '&', '=', '+', '$', '.', '!', '~', '*', '\x27', '(',
    ')'] || (wide && c ∈ [',', '[', ']'])

/-- Reads bytes written as a percent sign and two hexadecimal digits each; `steps` bounds their
number. -/
def scanBytes : Nat → List Char → List UInt8 × List Char
  | 0, s => ([], s)
  | steps + 1, s =>
    match s with
    | '%' :: a :: b :: rest =>
      match Number.readDigits 16 [a, b] with
      | some v =>
        let (more, rest) := scanBytes steps rest
        (v.toUInt8 :: more, rest)
      | none => ([], s)
    | _ => ([], s)

/-- How many bytes the character takes that begins with a byte. -/
def byteLength (b : UInt8) : Option Nat :=
  if b < 0x80 then some 1
  else if b &&& 0xE0 = 0xC0 then some 2
  else if b &&& 0xF0 = 0xE0 then some 3
  else if b &&& 0xF8 = 0xF0 then some 4
  else none

/-- Reads one character that is written as bytes. -/
def scanWrittenChar (s : List Char) : Option (Char × List Char) := do
  let first ← (scanBytes 1 s).1.head?
  let n ← byteLength first
  let (bytes, rest) := scanBytes n s
  let text ← String.fromUTF8? ⟨bytes.toArray⟩
  match text.toList with
  | [c] => return (c, rest)
  | _ => none

/-- Reads the ending of a tag; `steps` bounds its length. -/
def scanEnding (wide : Bool) : Nat → List Char → Option (List Char × List Char)
  | 0, _ => none
  | steps + 1, s =>
    match s with
    | [] => some ([], [])
    | c :: rest =>
      if c = '%' then do
        let (ch, rest) ← scanWrittenChar s
        let (more, rest) ← scanEnding wide steps rest
        return (ch :: more, rest)
      else if isTagSign wide c then
        (scanEnding wide steps rest).map fun p => (c :: p.1, p.2)
      else some ([], s)

/-- Reads the ending of a tag with its place. -/
def scanEndingAt (wide : Bool) (c : Cursor) : Option (String × Cursor) := do
  let (text, rest) ← scanEnding wide (c.rest.length + 1) c.rest
  return (String.ofList text, c.skip (c.rest.length - rest.length))

/-- Reads a handle: a name between two exclamation marks, or a name behind one. -/
def scanHandle (c : Cursor) : Option (String × Cursor) :=
  if ¬c.sees '!' then none
  else
    let (name, c) := scanName (c.skip 1)
    if c.sees '!' then some ("!" ++ name ++ "!", c.skip 1) else some ("!" ++ name, c)

/-- Whether a handle has both of its marks. -/
def isWholeHandle (handle : String) : Bool := handle.length ≥ 2 && handle.endsWith "!"

/-- Reads a tag between angle brackets behind the first of them. -/
def scanVerbatim (c : Cursor) : Option (Token × Cursor) := do
  let (ending, c) ← scanEndingAt true c
  if ending.isEmpty ∨ ¬c.sees '>' then none
  return (.tag "" ending, c.skip 1)

/-- Reads a tag that begins with a handle.  A single mark alone is a tag as well. -/
def scanShorthand (c : Cursor) : Option (Token × Cursor) := do
  let (handle, c) ← scanHandle c
  let (ending, c) ← scanEndingAt false c
  if isWholeHandle handle then
    if ending.isEmpty then none else return (.tag handle ending, c)
  else
    let ending := String.ofList handle.toList.tail ++ ending
    return (if ending.isEmpty then .tag "" "!" else .tag "!" ending, c)

/-- Reads a tag.  Something has to stand behind it that ends a word, or a comma between brackets. -/
def scanTag (inner : Bool) (c : Cursor) : Option (Token × Cursor) := do
  let (t, c) ← if c.seesThen '<' then scanVerbatim (c.skip 2) else scanShorthand c
  if endsWord c.rest ∨ (inner ∧ c.sees ',') then return (t, c) else none

/-! ## Directives -/

/-- Reads a part of a version. -/
def scanVersionPart (c : Cursor) : Option (Nat × Cursor) := do
  let digits := c.rest.takeWhile Number.isDigit
  if 9 < digits.length then none
  let n ← Number.readDigits 10 digits
  return (n, c.skip digits.length)

/-- Reads the version of a document. -/
def scanVersion (c : Cursor) : Option (Token × Cursor) := do
  let (major, c) ← scanVersionPart (c.skipWhile isBlank)
  if ¬c.sees '.' then none
  let (minor, c) ← scanVersionPart (c.skip 1)
  return (.version major minor, c)

/-- Reads a handle and what it stands for. -/
def scanHandleMeaning (c : Cursor) : Option (Token × Cursor) := do
  let (handle, c) ← scanHandle (c.skipWhile isBlank)
  if handle ≠ "!" ∧ ¬isWholeHandle handle then none
  if ¬c.rest.head?.any isBlank then none
  let (start, c) ← scanEndingAt true (c.skipWhile isBlank)
  if start.isEmpty ∨ ¬endsWord c.rest then none
  return (.handle handle start, c)

/-- Reads a directive with the end of its line. -/
def scanDirective (c : Cursor) : Option (Token × Cursor) := do
  let (name, c) := scanName (c.skip 1)
  if ¬endsWord c.rest then none
  let (t, c) ←
    if name = "YAML" then scanVersion c
    else if name = "TAG" then scanHandleMeaning c
    else none
  let c := c.skipComment
  if ¬endsLine c.rest then none
  return (t, c.skipBreak)

end LoadReplay.Yaml
