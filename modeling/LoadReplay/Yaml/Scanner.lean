import LoadReplay.Yaml.Property
import LoadReplay.Yaml.Scalar

/-!
# The tokens of a YAML text

A scanner goes through a text once.  Outside of brackets it keeps the columns of the blocks around
its place; a smaller indentation closes blocks.

That something was a key shows only at the colon behind it.  So the scanner remembers the place
where a key may have begun, one for each level of brackets, and puts the tokens for the key there
when the colon comes.
-/

namespace LoadReplay.Yaml

/-- A place where a key may have begun. -/
structure KeyPlace where
  /-- How many tokens come before it. -/
  position : Nat
  /-- Whether a key has to be there. -/
  required : Bool
  index : Nat
  line : Nat
  column : Nat

/-- A scanner somewhere in a text. -/
structure Scanner where
  cursor : Cursor
  tokens : Array Token
  /-- Where a key may have begun on the innermost level of brackets. -/
  place : Option KeyPlace
  /-- Where keys may have begun on the levels around it, the inner ones first. -/
  outer : List (Option KeyPlace)
  /-- Whether a key may begin here. -/
  keyAllowed : Bool
  /-- One more than the column of the innermost block, and zero outside of all blocks. -/
  margin : Nat
  /-- The margins of the blocks around it, the inner ones first. -/
  margins : List Nat

namespace Scanner

/-- A scanner at the front of a text. -/
def start (text : List Char) : Scanner :=
  { cursor := .start text
    tokens := #[]
    place := none
    outer := []
    keyAllowed := true
    margin := 0
    margins := [] }

/-- Whether the scanner is between brackets. -/
def inner (s : Scanner) : Bool := !s.outer.isEmpty

/-- Adds a token. -/
def emit (s : Scanner) (t : Token) : Scanner := { s with tokens := s.tokens.push t }

/-- Adds a token of some characters that do not end a line. -/
def emitSign (s : Scanner) (n : Nat) (t : Token) : Scanner :=
  { s with cursor := s.cursor.skip n, tokens := s.tokens.push t }

/-! ## Blanks -/

/-- Behind blanks, comments and line ends; `steps` bounds the number of lines.  A tab does not count
as a blank where a key may begin. -/
def skipVoid : Nat → Scanner → Scanner
  | 0, s => s
  | steps + 1, s =>
    -- A byte order mark may stand at the front of any line.
    let c := if s.cursor.column = 0 ∧ s.cursor.sees '\ufeff' then s.cursor.skip 1 else s.cursor
    let c := c.skipWhile fun ch => ch == ' ' || (ch == '\t' && (s.inner || !s.keyAllowed))
    let c := if c.sees '#' then c.skipWhile (fun ch => !isBreak ch) else c
    -- Outside brackets a key may begin on every new line.
    if endsLine c.rest ∧ ¬c.isDone then
      skipVoid steps { s with cursor := c.takeBreak.2, keyAllowed := s.keyAllowed || !s.inner }
    else { s with cursor := c }

/-! ## Keys -/

/-- A place that can still be one: a key ends on its line, after at most 1024 characters.  There is
no answer if a key was required there. -/
def refreshPlace (c : Cursor) : Option KeyPlace → Option (Option KeyPlace)
  | none => some none
  | some p =>
    if p.line < c.line ∨ p.index + 1024 < c.index then
      if p.required then none else some none
    else some (some p)

/-- Forgets the places that can no longer be keys. -/
def refresh (s : Scanner) : Option Scanner := do
  let place ← refreshPlace s.cursor s.place
  let outer ← s.outer.mapM (refreshPlace s.cursor)
  return { s with place, outer }

/-- Forgets the place on the innermost level. -/
def dropPlace (s : Scanner) : Option Scanner :=
  if s.place.any (·.required) then none else some { s with place := none }

/-- Remembers this place as one where a key may begin. -/
def savePlace (s : Scanner) : Option Scanner :=
  if s.keyAllowed then do
    let c := s.cursor
    let s ← s.dropPlace
    let place : KeyPlace :=
      { position := s.tokens.size
        -- At the margin of a block there can only be a key.
        required := !s.inner && s.margin == c.column + 1
        index := c.index
        line := c.line
        column := c.column }
    return { s with place := some place }
  else some s

/-! ## Blocks -/

/-- Closes the blocks that are indented further than `margin`. -/
def closeBlocks (margin : Nat) : List Nat → Scanner → Scanner
  | [], s => s
  | outside :: rest, s =>
    if margin < s.margin then
      closeBlocks margin rest { s.emit .blockEnd with margin := outside, margins := rest }
    else s

/-- Closes the blocks that are indented further than `margin`, unless between brackets. -/
def unroll (s : Scanner) (margin : Nat) : Scanner :=
  if s.inner then s else closeBlocks margin s.margins s

/-- Opens a block at a column if it is indented further than the block around it, with its token at
a position. -/
def openBlock (s : Scanner) (column position : Nat) (t : Token) : Scanner :=
  if s.inner ∨ column < s.margin then s
  else
    { s with
      tokens := s.tokens.insertIdxIfInBounds position t
      margin := column + 1
      margins := s.margin :: s.margins }

/-- Opens a block here if it is indented further than the block around it. -/
def openHere (s : Scanner) (t : Token) : Scanner :=
  s.openBlock s.cursor.column s.tokens.size t

/-! ## Tokens -/

/-- Reads a directive. -/
def directive (s : Scanner) : Option Scanner := do
  let s ← (s.unroll 0).dropPlace
  let (t, cursor) ← scanDirective s.cursor
  return { s.emit t with cursor, keyAllowed := false }

/-- Reads the mark at which a document begins or ends. -/
def documentMark (s : Scanner) (t : Token) : Option Scanner := do
  let s ← (s.unroll 0).dropPlace
  return { s.emitSign 3 t with keyAllowed := false }

/-- Reads an opening bracket. -/
def openBracket (s : Scanner) (t : Token) : Option Scanner := do
  let s ← s.savePlace
  -- What is in brackets may be a key, so its place is kept outside of them.
  return { s.emitSign 1 t with place := none, outer := s.place :: s.outer, keyAllowed := true }

/-- Reads a closing bracket. -/
def closeBracket (s : Scanner) (t : Token) : Option Scanner := do
  let s ← s.dropPlace
  let s := { s.emitSign 1 t with keyAllowed := false }
  match s.outer with
  | [] => return s
  | place :: outer => return { s with place, outer }

/-- Reads a comma. -/
def comma (s : Scanner) : Option Scanner := do
  let s ← s.dropPlace
  return { s.emitSign 1 .comma with keyAllowed := true }

/-- Reads the hyphen before an item. -/
def item (s : Scanner) : Option Scanner := do
  if ¬s.inner ∧ ¬s.keyAllowed then none
  let s ← (s.openHere .blockList).dropPlace
  return { s.emitSign 1 .item with keyAllowed := true }

/-- Reads the question mark before a key. -/
def key (s : Scanner) : Option Scanner := do
  if ¬s.inner ∧ ¬s.keyAllowed then none
  let s ← (s.openHere .blockRecord).dropPlace
  return { s.emitSign 1 .key with keyAllowed := !s.inner }

/-- Reads the colon before a value.  What began at the remembered place was a key then. -/
def value (s : Scanner) : Option Scanner :=
  match s.place with
  | some p =>
    let s := { s with tokens := s.tokens.insertIdxIfInBounds p.position .key, place := none }
    -- The block begins with its first key, so its token goes before that of the key.
    let s := s.openBlock p.column p.position .blockRecord
    some { s.emitSign 1 .value with keyAllowed := false }
  | none =>
    if ¬s.inner ∧ ¬s.keyAllowed then none
    else
      let s := s.openHere .blockRecord
      some { s.emitSign 1 .value with keyAllowed := !s.inner }

/-- Reads an anchor or an alias. -/
def anchor (s : Scanner) (t : String → Token) : Option Scanner := do
  let s ← s.savePlace
  let (name, cursor) ← scanAnchor (s.cursor.skip 1)
  return { s.emit (t name) with cursor, keyAllowed := false }

/-- Reads a tag. -/
def tag (s : Scanner) : Option Scanner := do
  let s ← s.savePlace
  let (t, cursor) ← scanTag s.inner s.cursor
  return { s.emit t with cursor, keyAllowed := false }

/-- Reads a block. -/
def block (s : Scanner) (style : Style) : Option Scanner := do
  let s ← s.dropPlace
  let (text, cursor) ← scanBlock (style = .folded) s.margin (s.cursor.skip 1)
  return { s.emit (.scalar (String.ofList text) style) with cursor, keyAllowed := true }

/-- Reads a quoted scalar. -/
def quoted (s : Scanner) (mark : Char) : Option Scanner := do
  let s ← s.savePlace
  let (text, cursor) ← scanQuoted mark (s.cursor.rest.length + 1) (s.cursor.skip 1)
  return { s.emit (.scalar (String.ofList text) .quoted) with cursor, keyAllowed := false }

/-- Reads a plain scalar. -/
def plain (s : Scanner) : Option Scanner := do
  let s ← s.savePlace
  let (text, broken, cursor) ←
    scanPlain s.inner s.margin (s.cursor.rest.length + 1) .none s.cursor
  return { s.emit (.scalar (String.ofList text) .plain) with cursor, keyAllowed := broken }

/-- Whether a plain scalar may begin before a text. -/
def mayBePlain (inner : Bool) : List Char → Bool
  | [] => false
  | c :: rest =>
    (!endsWord [c] && c ∉ ['-', '?', ':', ',', '[', ']', '\x7b', '\x7d', '#', '&', '*', '!', '|',
      '>', single, double, '%', '@', '\x60'])
      || (c == '-' && !rest.head?.any isBlank)
      || (!inner && (c == '?' || c == ':') && !endsWord rest)

/-- Reads the next token; `c` is the next character and `rest` what follows it. -/
def token (s : Scanner) (c : Char) (rest : List Char) : Option Scanner :=
  if s.cursor.column = 0 ∧ c = '%' then s.directive
  else if s.cursor.atMark '-' then s.documentMark .documentStart
  else if s.cursor.atMark '.' then s.documentMark .documentEnd
  else if c = '[' then s.openBracket .openList
  else if c = '\x7b' then s.openBracket .openRecord
  else if c = ']' then s.closeBracket .closeList
  else if c = '\x7d' then s.closeBracket .closeRecord
  else if c = ',' then s.comma
  else if c = '-' ∧ endsWord rest then s.item
  else if c = '?' ∧ (s.inner ∨ endsWord rest) then s.key
  else if c = ':' ∧ (s.inner ∨ endsWord rest) then s.value
  else if c = '*' then s.anchor .alias
  else if c = '&' then s.anchor .anchor
  else if c = '!' then s.tag
  else if c = '|' ∧ ¬s.inner then s.block .literal
  else if c = '>' ∧ ¬s.inner then s.block .folded
  else if c = single ∨ c = double then s.quoted c
  else if mayBePlain s.inner (c :: rest) then s.plain
  else none

/-- Reads all tokens; `steps` bounds their number. -/
def run : Nat → Scanner → Option (Array Token)
  | 0, _ => none
  | steps + 1, s => do
    let s ← (skipVoid (s.cursor.rest.length + 1) s).refresh
    match s.cursor.rest with
    | [] =>
      let s ← (s.unroll 0).dropPlace
      return s.tokens
    | c :: rest =>
      -- A token ends all blocks whose margin lies to the right of it.
      let s := s.unroll (s.cursor.column + 1)
      run steps (← s.token c rest)

end Scanner

/-- Whether a character may stand in a YAML text. -/
def isAllowed (c : Char) : Bool :=
  let n := c.toNat
  n == 0x09 || n == 0x0A || n == 0x0D || (0x20 ≤ n && n ≤ 0x7E) || n == 0x85
    || (0xA0 ≤ n && n ≤ 0xD7FF) || (0xE000 ≤ n && n ≤ 0xFFFD) || 0x10000 ≤ n

/-- The tokens of a text. -/
def scan (text : List Char) : Option (List Token) :=
  if text.all isAllowed then
    ((Scanner.start text).run (text.length + 1)).map Array.toList
  else none

end LoadReplay.Yaml
