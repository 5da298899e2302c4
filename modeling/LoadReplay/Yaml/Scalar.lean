import LoadReplay.Number.Whole
import LoadReplay.Yaml.Cursor

/-!
# Scalars of YAML

The three ways to write a scalar: plain, between quotation marks, and as an indented block.  Every
reader gives the text with the place behind it, or nothing where no scalar can be; `steps` bounds
its rounds and is computed from the length of the text.

Line ends within a scalar are folded: a single one becomes a blank, and of several the first one
vanishes.
-/

namespace LoadReplay.Yaml

/-- What separates two words of a scalar: blanks, or line ends with the blanks around them. -/
structure Gap where
  blanks : List Char
  breaks : List Char

namespace Gap

/-- The gap before the first word. -/
def none : Gap := ⟨[], []⟩

/-- Folded line ends. -/
def fold : List Char → List Char
  | ['\n'] => [' ']
  | '\n' :: rest => rest
  | breaks => breaks

/-- The text of a gap. -/
def text (g : Gap) : List Char := if g.breaks.isEmpty then g.blanks else fold g.breaks

/-- Whether there is a line end in the gap. -/
def breaksLine (g : Gap) : Bool := !g.breaks.isEmpty

end Gap

/-- Reads blanks and line ends.  Behind a line end a tab must not stand before the column `margin`.
-/
def scanGap (margin : Nat) : Nat → Gap → Cursor → Option (Gap × Cursor)
  | 0, _, _ => none
  | steps + 1, g, c =>
    match c.rest with
    | [] => some (g, c)
    | ch :: _ =>
      if isBreak ch then
        let (b, c) := c.takeBreak
        scanGap margin steps ⟨g.blanks, g.breaks ++ [b]⟩ c
      else if isBlank ch then
        if g.breaksLine then
          if ch = '\t' ∧ c.column < margin then none else scanGap margin steps g (c.skip 1)
        else scanGap margin steps ⟨g.blanks ++ [ch], g.breaks⟩ (c.skip 1)
      else some (g, c)

/-! ## Plain scalars -/

/-- Whether a character has a meaning of its own between brackets. -/
def isBracketSign (c : Char) : Bool :=
  c == ',' || c == '[' || c == ']' || c == '\x7b' || c == '\x7d'

/-- Reads a word of a plain scalar up to a blank or a sign; `inner` says whether it stands between
brackets. -/
def scanWord (inner : Bool) : List Char → Option (List Char)
  | [] => some []
  | ch :: rest =>
    if endsWord (ch :: rest) then some []
    else if inner ∧ ch = ':' ∧ rest.head?.any (fun d => isBracketSign d || d == '?') then none
    else if (ch = ':' ∧ endsWord rest) ∨ (inner ∧ isBracketSign ch) then some []
    else (scanWord inner rest).map (ch :: ·)

/-- Reads a plain scalar on behind a gap.  Outside of brackets it goes on as long as its lines begin
at the column `margin` or behind.  Also says whether it was left behind a line end. -/
def scanPlain (inner : Bool) (margin : Nat) :
    Nat → Gap → Cursor → Option (List Char × Bool × Cursor)
  | 0, _, _ => none
  | steps + 1, g, c =>
    if c.atDocument || c.sees '#' then some ([], g.breaksLine, c)
    else do
      let word ← scanWord inner c.rest
      if word.isEmpty then return ([], g.breaksLine, c)
      let front := g.text ++ word
      let c := c.skip word.length
      if ¬endsWord c.rest ∨ c.isDone then return (front, false, c)
      let (g, c) ← scanGap margin (c.rest.length + 1) .none c
      if ¬inner ∧ c.column < margin then return (front, g.breaksLine, c)
      let (more, broken, c) ← scanPlain inner margin steps g c
      return (front ++ more, broken, c)

/-! ## Quoted scalars -/

/-- The characters that a backslash and a letter stand for. -/
def namedEscapes : List (Char × Char) :=
  [('0', '\x00'), ('a', '\x07'), ('b', '\x08'), ('t', '\t'), ('\t', '\t'), ('n', '\n'),
    ('v', '\x0b'), ('f', '\x0c'), ('r', carriageReturn), ('e', '\x1b'), (' ', ' '),
    ('\x22', '\x22'), ('/', '/'), ('\x5c', '\x5c'), ('N', '\u0085'), ('_', '\u00a0'),
    ('L', '\u2028'), ('P', '\u2029')]

/-- How many hexadecimal digits stand behind a backslash and a letter. -/
def codeLengths : List (Char × Nat) := [('x', 2), ('u', 4), ('U', 8)]

/-- Reads what stands behind a backslash: the character, and how long it is written. -/
def scanEscape : List Char → Option (Char × Nat)
  | [] => none
  | ch :: rest =>
    match namedEscapes.lookup ch with
    | some d => some (d, 1)
    | none => do
      let n ← codeLengths.lookup ch
      if rest.length < n then none
      let v ← Number.readDigits 16 (rest.take n)
      if v < 0xD800 ∨ (0xE000 ≤ v ∧ v ≤ 0x10FFFF) then return (Char.ofNat v, n + 1) else none

/-- The quotation mark of a scalar in which backslashes mean nothing. -/
def single : Char := '\x27'

/-- The quotation mark of a scalar in which backslashes mean something. -/
def double : Char := '\x22'

/-- The backslash. -/
def backslash : Char := '\x5c'

/-- Reads a quoted scalar up to a blank, a line end or its quotation mark.  Also says whether a line
end behind a backslash was read. -/
def scanQuotedWord (mark : Char) : Nat → Cursor → Option (List Char × Bool × Cursor)
  | 0, _ => none
  | steps + 1, c =>
    if endsWord c.rest then some ([], false, c)
    else if mark = single ∧ c.sees single ∧ c.seesThen single then
      (scanQuotedWord mark steps (c.skip 2)).map fun p => (single :: p.1, p.2)
    else if c.sees mark then some ([], false, c)
    else if mark = double ∧ c.sees backslash then
      if (c.rest[1]?).any isBreak then some ([], true, (c.skip 1).takeBreak.2)
      else do
        let (ch, n) ← scanEscape c.rest.tail
        let (more, joined, c) ← scanQuotedWord mark steps (c.skip (n + 1))
        return (ch :: more, joined, c)
    else
      (scanQuotedWord mark steps (c.skip 1)).map fun p => (c.rest.headD ' ' :: p.1, p.2)

/-- Reads a quoted scalar behind its first quotation mark. -/
def scanQuoted (mark : Char) : Nat → Cursor → Option (List Char × Cursor)
  | 0, _ => none
  | steps + 1, c =>
    if c.atDocument || c.isDone then none
    else do
      let (word, joined, c) ← scanQuotedWord mark (c.rest.length + 1) c
      if !joined ∧ c.sees mark then return (word, c.skip 1)
      let before : Gap := if joined then ⟨[], ['\n']⟩ else .none
      let (g, c) ← scanGap 0 (c.rest.length + 1) before c
      let gap := if joined then g.breaks.tail else g.text
      let (more, c) ← scanQuoted mark steps c
      return (word ++ gap ++ more, c)

/-! ## Blocks -/

/-- What happens to the line ends at the end of a block. -/
inductive Chomping where
  | strip
  | clip
  | keep
  deriving Repr, DecidableEq

/-- Reads how a block treats its last line ends, if that is said. -/
def scanChomping (c : Cursor) : Option Chomping × Cursor :=
  if c.sees '+' then (some .keep, c.skip 1)
  else if c.sees '-' then (some .strip, c.skip 1)
  else (none, c)

/-- Reads how far a block is indented, if that is said; it cannot be zero. -/
def scanIndent (c : Cursor) : Option (Nat × Cursor) :=
  match c.rest with
  | ch :: _ =>
    if Number.isDigit ch then
      if ch = '0' then none else some (ch.toNat - 48, c.skip 1)
    else some (0, c)
  | [] => some (0, c)

/-- Reads the signs behind the sign of a block, in either order. -/
def scanBlockSigns (c : Cursor) : Option (Chomping × Nat × Cursor) := do
  let (chomping, c) := scanChomping c
  let (indent, c) ← scanIndent c
  match chomping with
  | some chomping => return (chomping, indent, c)
  | none =>
    let (chomping, c) := if indent = 0 then (none, c) else scanChomping c
    return (chomping.getD .clip, indent, c)

/-- Reads empty lines and the indentation behind them.  An indentation of zero is not known yet;
`deepest` is the deepest one so far. -/
def scanIndentation (indent : Nat) : Nat → Nat → Cursor → Option (List Char × Nat × Cursor)
  | 0, _, _ => none
  | steps + 1, deepest, c =>
    let within (c : Cursor) : Bool := indent == 0 || c.column < indent
    let blanks := (c.rest.takeWhile (· == ' ')).length
    let c := c.skip (if indent = 0 then blanks else min blanks (indent - c.column))
    let deepest := max deepest c.column
    if within c ∧ c.sees '\t' then none
    else if endsLine c.rest ∧ ¬c.isDone then do
      let (b, c) := c.takeBreak
      let (breaks, deepest, c) ← scanIndentation indent steps deepest c
      return (b :: breaks, deepest, c)
    else some ([], deepest, c)

/-- The lines of a block as they are read. -/
structure BlockText where
  text : List Char
  /-- The end of the last line, if it has one. -/
  ending : List Char
  /-- The ends of the empty lines behind it. -/
  trailing : List Char
  /-- Whether the last line begins with a blank. -/
  blank : Bool

/-- The text between the last line and the next one.  Folding joins lines that do not begin with
blanks. -/
def BlockText.glue (b : BlockText) (folded blank : Bool) : List Char :=
  if folded ∧ b.ending = ['\n'] ∧ ¬b.blank ∧ ¬blank then
    if b.trailing.isEmpty then [' '] else b.trailing
  else b.ending ++ b.trailing

/-- Reads the lines of a block that begin at the column `indent`. -/
def scanBlockLines (folded : Bool) (indent : Nat) : Nat → BlockText → Cursor →
    Option (BlockText × Cursor)
  | 0, _, _ => none
  | steps + 1, b, c =>
    if c.column ≠ indent ∨ c.isDone then some (b, c)
    else do
      let blank := c.rest.head?.any isBlank
      let line := c.rest.takeWhile fun ch => !isBreak ch
      let text := b.text ++ b.glue folded blank ++ line
      let c := c.skip line.length
      let (ending, c) := if c.isDone then ([], c) else let (e, c) := c.takeBreak; ([e], c)
      let (trailing, _, c) ← scanIndentation indent (c.rest.length + 1) 0 c
      scanBlockLines folded indent steps { text, ending, trailing, blank } c

/-- The text of a block. -/
def BlockText.close (b : BlockText) : Chomping → List Char
  | .strip => b.text
  | .clip => b.text ++ b.ending
  | .keep => b.text ++ b.ending ++ b.trailing

/-- Reads a block behind its sign.  Unless the indentation is said, the first line that is not empty
sets it; it is at least `margin`. -/
def scanBlock (folded : Bool) (margin : Nat) (c : Cursor) : Option (List Char × Cursor) := do
  let (chomping, said, c) ← scanBlockSigns c
  let c := c.skipComment
  if ¬endsLine c.rest then none
  let c := c.skipBreak
  let indent := if said = 0 then 0 else margin - 1 + said
  let (trailing, deepest, c) ← scanIndentation indent (c.rest.length + 1) 0 c
  let indent := if indent = 0 then max 1 (max deepest margin) else indent
  let first : BlockText := { text := [], ending := [], trailing, blank := false }
  let (b, c) ← scanBlockLines folded indent (c.rest.length + 1) first c
  return (b.close chomping, c)

end LoadReplay.Yaml
