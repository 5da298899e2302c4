/-!
# Places in a YAML text

A cursor holds what is left of a text and says where that is.  Indentation is a matter of columns,
and a key has to end on the line on which it begins, so readers need to know their place.
-/

namespace LoadReplay.Yaml

/-- The carriage return. -/
def carriageReturn : Char := '\x0d'

/-- Whether a character ends a line. -/
def isBreak (c : Char) : Bool :=
  c == '\n' || c == carriageReturn || c == '\u0085' || c == '\u2028' || c == '\u2029'

/-- Whether a character is a blank within a line. -/
def isBlank (c : Char) : Bool := c == ' ' || c == '\t'

/-- Whether a text begins with the end of a line, or is over. -/
def endsLine : List Char → Bool
  | [] => true
  | c :: _ => isBreak c

/-- Whether a text begins with something that ends a word. -/
def endsWord : List Char → Bool
  | [] => true
  | c :: _ => isBreak c || isBlank c

/-- What is left of a text, and where that is. -/
structure Cursor where
  rest : List Char
  /-- How many characters come before. -/
  index : Nat
  line : Nat
  column : Nat

namespace Cursor

/-- The place at the front of a text. -/
def start (text : List Char) : Cursor := ⟨text, 0, 0, 0⟩

/-- Whether a character comes next. -/
def sees (c : Cursor) (ch : Char) : Bool := c.rest.head? == some ch

/-- Whether a character comes next but one. -/
def seesThen (c : Cursor) (ch : Char) : Bool := c.rest[1]? == some ch

/-- Whether the text is over. -/
def isDone (c : Cursor) : Bool := c.rest.isEmpty

/-- Behind the next characters, none of which ends a line. -/
def skip (c : Cursor) (n : Nat) : Cursor :=
  { c with rest := c.rest.drop n, index := c.index + n, column := c.column + n }

/-- Behind all next characters of a kind that does not end lines. -/
def skipWhile (c : Cursor) (p : Char → Bool) : Cursor := c.skip (c.rest.takeWhile p).length

/-- Reads the end of a line.  All ends read as line feeds, except the separators of lines and of
paragraphs. -/
def takeBreak (c : Cursor) : Char × Cursor :=
  let next (rest : List Char) (n : Nat) : Cursor := ⟨rest, c.index + n, c.line + 1, 0⟩
  match c.rest with
  | [] => ('\n', c)
  | b :: rest =>
    if b = carriageReturn ∧ rest.head? = some '\n' then ('\n', next rest.tail 2)
    else if b = '\u2028' ∨ b = '\u2029' then (b, next rest 1)
    else ('\n', next rest 1)

/-- Behind a line end, if there is one. -/
def skipBreak (c : Cursor) : Cursor :=
  if endsLine c.rest ∧ ¬c.isDone then c.takeBreak.2 else c

/-- Whether a line begins here with a mark of three characters that stands alone. -/
def atMark (c : Cursor) (mark : Char) : Bool :=
  c.column == 0 && c.rest.take 3 == [mark, mark, mark] && endsWord (c.rest.drop 3)

/-- Whether a document begins or ends here. -/
def atDocument (c : Cursor) : Bool := c.atMark '-' || c.atMark '.'

/-- Reads blanks and comments up to the end of the line. -/
def skipComment (c : Cursor) : Cursor :=
  let c := c.skipWhile isBlank
  if c.sees '#' then c.skipWhile (fun ch => !isBreak ch) else c

end Cursor

end LoadReplay.Yaml
