import LoadReplay.Number.Reader
import LoadReplay.Text.Split

/-!
# Keys, texts and blanks of TOML

The parts of a TOML document that hold no other values.  Every reader takes the front of a text and
gives what it read with the rest, or nothing if the text does not begin as it should.
-/

namespace LoadReplay.Toml

/-- A reader of the front of a text. -/
abbrev Scan (α : Type) := List Char → Option (α × List Char)

/-- The double quotation mark. -/
def quote : Char := '\x22'

/-- The apostrophe. -/
def apostrophe : Char := '\x27'

/-- The backslash. -/
def backslash : Char := '\x5c'

/-- The carriage return. -/
def carriageReturn : Char := '\x0d'

/-- Whether a character is a blank within a line. -/
def isBlank (c : Char) : Bool := c == ' ' || c == '\t'

/-- Whether a character may stand in a comment or a text as it is. -/
def isPrintable (c : Char) : Bool := c == '\t' || (0x20 ≤ c.toNat && c.toNat ≠ 0x7F)

/-- The text without the blanks at its front. -/
def skipBlanks (s : List Char) : List Char := s.dropWhile isBlank

/-- The text behind a line end, if it begins with one. -/
def newline? : List Char → Option (List Char)
  | '\n' :: rest => some rest
  | c :: '\n' :: rest => if c = carriageReturn then some rest else none
  | _ => none

/-- The text behind a comment, or the text itself if it does not begin with one. -/
def skipComment : List Char → List Char
  | '#' :: rest => rest.dropWhile isPrintable
  | s => s

/-- Skips blanks, comments and line ends; `steps` bounds the number of lines. -/
def skipLines : Nat → List Char → List Char
  | 0, s => s
  | steps + 1, s =>
    let s := skipComment (skipBlanks s)
    match newline? s with
    | some rest => skipLines steps rest
    | none => s

/-- Skips blanks, comments and line ends. -/
def skipVoid (s : List Char) : List Char := skipLines s.length s

/-- The text behind blanks, a comment and the end of the line; nothing if something else follows. -/
def endLine (s : List Char) : Option (List Char) :=
  match skipComment (skipBlanks s) with
  | [] => some []
  | s => newline? s

/-- The character with the given hexadecimal code point, if it is one. -/
def codePoint? (digits : List Char) : Option Char :=
  (Number.readDigits 16 digits).bind fun n =>
    if n < 0xD800 ∨ (0xE000 ≤ n ∧ n ≤ 0x10FFFF) then some (Char.ofNat n) else none

/-- The character that stands behind a backslash in a text. -/
def scanEscape : Scan Char
  | 'b' :: rest => some ('\x08', rest)
  | 't' :: rest => some ('\t', rest)
  | 'n' :: rest => some ('\n', rest)
  | 'f' :: rest => some ('\x0c', rest)
  | 'r' :: rest => some (carriageReturn, rest)
  | 'u' :: rest =>
    if rest.length < 4 then none else (codePoint? (rest.take 4)).map (·, rest.drop 4)
  | 'U' :: rest =>
    if rest.length < 8 then none else (codePoint? (rest.take 8)).map (·, rest.drop 8)
  | c :: rest => if c = quote ∨ c = backslash then some (c, rest) else none
  | [] => none

/-- Reads the text between quotation marks behind the first of them; `steps` bounds its length. -/
def scanBasic : Nat → Scan (List Char)
  | 0, _ => none
  | _, [] => none
  | steps + 1, c :: rest =>
    if c = quote then some ([], rest)
    else if c = backslash then do
      let (d, rest) ← scanEscape rest
      let (more, rest) ← scanBasic steps rest
      return (d :: more, rest)
    else if isPrintable c then (scanBasic steps rest).map fun p => (c :: p.1, p.2)
    else none

/-- Reads the text between apostrophes behind the first of them. -/
def scanLiteral : Scan (List Char)
  | [] => none
  | c :: rest =>
    if c = apostrophe then some ([], rest)
    else if isPrintable c then (scanLiteral rest).map fun p => (c :: p.1, p.2)
    else none

/-- How many of a mark stand at the front of a text. -/
def runLength (mark : Char) (s : List Char) : Nat := (s.takeWhile (· == mark)).length

/-- A run of marks in a text of several lines.  Three or more end it, and up to two of them before
the last three belong to it.  Gives the marks that belong to the text, whether it ends, and the
rest. -/
def closingRun (mark : Char) (s : List Char) : List Char × Bool × List Char :=
  let n := runLength mark s
  if n < 3 then (List.replicate n mark, false, s.drop n)
  else
    let kept := min (n - 3) 2
    (List.replicate kept mark, true, s.drop (kept + 3))

/-- Behind blanks and line ends. -/
def skipBlankLines : List Char → List Char
  | '\x0d' :: '\n' :: rest => skipBlankLines rest
  | c :: rest => if isBlank c ∨ c = '\n' then skipBlankLines rest else c :: rest
  | [] => []

/-- Whether a backslash stands at the end of a line: the text behind it, without the blanks and line
ends that follow. -/
def joinedLine? (s : List Char) : Option (List Char) :=
  (newline? (skipBlanks s)).map skipBlankLines

/-- Reads a text of several lines up to its three closing marks.  `escapes` says whether backslashes
mean anything; `steps` bounds the length. -/
def scanLines (mark : Char) (escapes : Bool) : Nat → Scan (List Char)
  | 0, _ => none
  | _, [] => none
  | steps + 1, c :: rest =>
    if c = mark then
      let (kept, ends, rest) := closingRun mark (c :: rest)
      if ends then some (kept, rest)
      else (scanLines mark escapes steps rest).map fun p => (kept ++ p.1, p.2)
    else if escapes ∧ c = backslash then
      match joinedLine? rest with
      | some rest => scanLines mark escapes steps rest
      | none => do
        let (d, rest) ← scanEscape rest
        let (more, rest) ← scanLines mark escapes steps rest
        return (d :: more, rest)
    else
      match newline? (c :: rest) with
      | some rest => (scanLines mark escapes steps rest).map fun p => ('\n' :: p.1, p.2)
      | none =>
        if isPrintable c then
          (scanLines mark escapes steps rest).map fun p => (c :: p.1, p.2)
        else none

/-- The text behind a first line end, or the text itself. -/
def skipNewline (s : List Char) : List Char := (newline? s).getD s

/-- Reads a text of one line or, where `several` allows it, of several lines. -/
def scanQuoted (several : Bool) (s : List Char) : Option (List Char × List Char) :=
  match s with
  | [] => none
  | c :: rest =>
    if c = quote then
      if several ∧ 3 ≤ runLength quote s then
        scanLines quote true s.length (skipNewline (s.drop 3))
      else scanBasic s.length rest
    else if c = apostrophe then
      if several ∧ 3 ≤ runLength apostrophe s then
        scanLines apostrophe false s.length (skipNewline (s.drop 3))
      else scanLiteral rest
    else none

/-- Whether a character may stand in a key without quotation marks. -/
def isBareKey (c : Char) : Bool :=
  Number.isDigit c || ('a' ≤ c && c ≤ 'z') || ('A' ≤ c && c ≤ 'Z') || c == '_' || c == '-'

/-- Reads one part of a key. -/
def scanKey (s : List Char) : Option (String × List Char) :=
  let bare := s.takeWhile isBareKey
  if bare.isEmpty then (scanQuoted false s).map fun p => (String.ofList p.1, p.2)
  else some (String.ofList bare, s.drop bare.length)

/-- Reads a key of parts between points; `steps` bounds the number of parts.  Blanks around the
parts do not count. -/
def scanPath : Nat → Scan (List String)
  | 0, _ => none
  | steps + 1, s => do
    let (part, rest) ← scanKey (skipBlanks s)
    match skipBlanks rest with
    | '.' :: rest =>
      let (more, rest) ← scanPath steps rest
      return (part :: more, rest)
    | rest => return ([part], rest)

end LoadReplay.Toml
