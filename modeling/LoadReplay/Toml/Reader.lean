import LoadReplay.Toml.Number
import LoadReplay.Toml.Table

/-!
# Reading TOML

Values may hold other values, so their readers call each other; `steps` bounds how often and is
computed from the length of the text.  A document is read line by line into tables.
-/

namespace LoadReplay.Toml

open Document (Tree Decoded need)

/-- Reads a word that is a value. -/
def scanWord (s : List Char) : Option (Tree × List Char) :=
  match Text.stripStart? "true".toList s with
  | some rest => some (.scalar (.ofPlain (.truth true)), rest)
  | none =>
    (Text.stripStart? "false".toList s).map fun rest =>
      (.scalar (.ofPlain (.truth false)), rest)

/-- Reads a value that holds no others. -/
def scanScalar (s : List Char) : Option (Tree × List Char) :=
  match s with
  | [] => none
  | c :: _ =>
    if c = quote ∨ c = apostrophe then
      (scanQuoted true s).map fun p => (.scalar (.ofPlain (.text (String.ofList p.1))), p.2)
    else if c = 't' ∨ c = 'f' then scanWord s
    else
      match scanMoment s with
      | some (text, rest) => some (momentTree text, rest)
      | none => scanNumber s

mutual

/-- Reads a value. -/
def scanValue : Nat → Scan Tree
  | 0, _ => none
  | steps + 1, s =>
    match s with
    | '[' :: rest => (scanItems steps (skipVoid rest)).map fun p => (.list p.1 .loosely, p.2)
    | c :: rest =>
      if c = '\x7b' then
        match skipBlanks rest with
        | [] => none
        | d :: behind =>
          if d = '\x7d' then some (.record [], behind)
          else
            (scanPairs steps [] (d :: behind)).map fun p => (.record (entriesTree p.1), p.2)
      else scanScalar s
    | [] => none

/-- Reads the items of a list up to its end.  A comma may stand behind the last one. -/
def scanItems : Nat → Scan (List Tree)
  | 0, _ => none
  | steps + 1, s =>
    match s with
    | ']' :: rest => some ([], rest)
    | s => do
      let (t, rest) ← scanValue steps s
      match skipVoid rest with
      | ',' :: rest =>
        let (more, rest) ← scanItems steps (skipVoid rest)
        return (t :: more, rest)
      | ']' :: rest => return ([t], rest)
      | _ => none

/-- Reads the entries of a table in braces up to its end. -/
def scanPairs : Nat → Entries → Scan Entries
  | 0, _, _ => none
  | steps + 1, entries, s => do
    let (path, rest) ← scanPath s.length s
    let rest ← past '=' rest
    let (t, rest) ← scanValue steps (skipBlanks rest)
    let entries ← assign entries path.dropLast (path.getLastD "") t
    match skipBlanks rest with
    | ',' :: rest => scanPairs steps entries rest
    | c :: rest => if c = '\x7d' then return (entries, rest) else none
    | [] => none

end

/-- The tables read so far, and the path of the table that is being filled. -/
structure Page where
  entries : Entries
  path : List String

/-- Takes a header behind its opening brackets. -/
def Page.takeHeader (p : Page) (next : Bool) (s : List Char) : Option (Page × List Char) := do
  let (path, rest) ← scanPath s.length s
  let rest ← past ']' rest
  let rest ← if next then past ']' rest else some rest
  let open' := if next then openNext else openTable
  let entries ← open' p.entries path.dropLast (path.getLastD "")
  return (⟨entries, path⟩, ← endLine rest)

/-- Takes a key with its value. -/
def Page.takePair (p : Page) (s : List Char) : Option (Page × List Char) := do
  let (path, rest) ← scanPath s.length s
  let rest ← past '=' rest
  let (t, rest) ← scanValue (2 * rest.length + 2) (skipBlanks rest)
  let entries ← withinPath p.entries p.path fun es =>
    assign es path.dropLast (path.getLastD "") t
  return ({ p with entries }, ← endLine rest)

/-- Takes all lines that are left; `steps` bounds their number. -/
def Page.takeLines : Nat → Page → List Char → Option Page
  | 0, _, _ => none
  | steps + 1, p, s =>
    match skipVoid s with
    | [] => some p
    | '[' :: '[' :: rest => do
      let (p, rest) ← p.takeHeader true rest
      takeLines steps p rest
    | '[' :: rest => do
      let (p, rest) ← p.takeHeader false rest
      takeLines steps p rest
    | s => do
      let (p, rest) ← p.takePair s
      takeLines steps p rest

/-- The text without a byte order mark at its front. -/
def skipMark : List Char → List Char
  | '\ufeff' :: rest => rest
  | s => s

/-- Reads a document written in TOML. -/
def read (s : List Char) : Decoded Tree := do
  let s := skipMark s
  let page ← need (Page.takeLines (s.length + 1) ⟨[], []⟩ s)
  return .record (entriesTree page.entries)

end LoadReplay.Toml
