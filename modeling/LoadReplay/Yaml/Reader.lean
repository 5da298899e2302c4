import LoadReplay.Yaml.Resolve
import LoadReplay.Yaml.Scanner

/-!
# Reading YAML

The document that the tokens of a text form.  A node may have an anchor; an alias stands for the
node that its anchor names.  Nodes hold other nodes, so their readers call each other; `steps`
bounds how often and is computed from the number of tokens.

A text is one document.  Nothing but its end may follow the node.
-/

namespace LoadReplay.Yaml

open Document (Tree Decoded need)

/-- The tokens that are left, and what has been said so far. -/
structure Reading where
  tokens : List Token
  /-- The number of each anchor.  An anchor that is given again takes the number of names so far. -/
  anchors : List (String × Nat)
  /-- The nodes by the number of their anchor, the last ones first. -/
  nodes : List (Nat × Tree)
  /-- What the handles of tags stand for. -/
  handles : List (String × String)

/-- A reader of some tokens. -/
abbrev Read := StateT Reading Option

namespace Read

/-- The next token. -/
def peek : Read (Option Token) := return (← get).tokens.head?

/-- Goes behind the next token. -/
def skip : Read Unit := modify fun r => { r with tokens := r.tokens.tail }

/-- Whether the next token is one of some. -/
def sees (ts : List Token) : Read Bool := return (← get).tokens.head?.any (· ∈ ts)

/-- Goes behind a token, which has to come next. -/
def expect (t : Token) : Read Unit := do
  if ← sees [t] then skip else failure

/-! ## Properties of nodes -/

/-- What a handle stands for: its own meaning in the document, or the one it always has. -/
def meaning? (handles : List (String × String)) (handle : String) : Option String :=
  (handles.lookup handle).or ([("!", "!"), ("!!", coreTag "")].lookup handle)

/-- The tag with a handle and an ending. -/
def wholeTag (handle ending : String) : Read String := do
  if handle.isEmpty then return ending
  match meaning? (← get).handles handle with
  | some start => return start ++ ending
  | none => failure

/-- Reads a tag, if one comes next. -/
def tag? : Read (Option String) := do
  match ← peek with
  | some (.tag handle ending) =>
    skip
    return some (← wholeTag handle ending)
  | _ => return none

/-- Reads an anchor, if one comes next. -/
def anchor? : Read (Option String) := do
  match ← peek with
  | some (.anchor name) =>
    skip
    return some name
  | _ => return none

/-- Reads an anchor and a tag in either order. -/
def properties : Read (Option String × Option String) := do
  match ← anchor? with
  | some name => return (some name, ← tag?)
  | none =>
    let tag ← tag?
    return (← anchor?, tag)

/-- Gives an anchor its number.  Until the node is read, the anchor names nothing of use. -/
def openAnchor (name : String) : Read Nat := do
  let r ← get
  let number := r.anchors.length
  let anchors := (name, number) :: r.anchors.filter (·.1 != name)
  set { r with anchors, nodes := (number, .refused) :: r.nodes }
  return number

/-- Remembers the node of an anchor. -/
def closeAnchor (number : Nat) (t : Tree) : Read Unit :=
  modify fun r => { r with nodes := (number, t) :: r.nodes }

/-- The node that an alias stands for. -/
def aliased (name : String) : Read Tree := do
  let r ← get
  match r.anchors.lookup name with
  | some number => return (r.nodes.lookup number).getD .refused
  | none => failure

/-- The node of which nothing is written. -/
def absent : Tree := .scalar (scalarOf "" .plain none)

/-! ## Nodes -/

/-- Where a node stands. -/
inductive Position where
  /-- Between brackets, where blocks cannot stand. -/
  | inner
  | block
  /-- In a record of a block, where a list need not be indented. -/
  | field
  deriving DecidableEq

mutual

/-- Reads a node. -/
def node : Nat → Position → Read Tree
  | 0, _ => failure
  | steps + 1, position => do
    match ← peek with
    | some (.alias name) =>
      skip
      aliased name
    | _ =>
      let (anchor, tag) ← properties
      match anchor with
      | some name =>
        let number ← openAnchor name
        let t ← content steps position true tag
        closeAnchor number t
        return t
      | none => content steps position tag.isSome tag

/-- Reads what a node is, behind its anchor and its tag.  Only with one of these it may be left out.
-/
def content : Nat → Position → Bool → Option String → Read Tree
  | 0, _, _, _ => failure
  | steps + 1, position, optional, tag => do
    match ← peek with
    | some (.scalar text style) =>
      skip
      return .scalar (scalarOf text style tag)
    | some .openList =>
      skip
      return .list (← innerItems steps true) .never
    | some .openRecord =>
      skip
      return .record (← innerEntries steps true)
    | t =>
      if position = .field ∧ t = some .item then return .list (← looseItems steps) .never
      else if position ≠ .inner ∧ t = some .blockList then
        skip
        return .list (← items steps) .never
      else if position ≠ .inner ∧ t = some .blockRecord then
        skip
        return .record (← entries steps)
      else if optional then return .scalar (scalarOf "" .plain tag)
      else failure

/-- Reads a node unless one of some tokens comes next. -/
def nodeUnless : Nat → Position → List Token → Read Tree
  | 0, _, _ => failure
  | steps + 1, position, ends => do
    if ← sees ends then return absent else node steps position

/-- Reads the items of a block. -/
def items : Nat → Read (List Tree)
  | 0 => failure
  | steps + 1 => do
    if ← sees [.item] then
      skip
      let t ← nodeUnless steps .block [.item, .blockEnd]
      return t :: (← items steps)
    else
      expect .blockEnd
      return []

/-- Reads the items of a list that is not indented. -/
def looseItems : Nat → Read (List Tree)
  | 0 => failure
  | steps + 1 => do
    if ← sees [.item] then
      skip
      let t ← nodeUnless steps .block [.item, .key, .value, .blockEnd]
      return t :: (← looseItems steps)
    else return []

/-- Reads the value of an entry, which may be left out. -/
def fieldValue : Nat → Position → List Token → Read Tree
  | 0, _, _ => failure
  | steps + 1, position, ends => do
    if ← sees [.value] then
      skip
      nodeUnless steps position ends
    else return absent

/-- Reads the entries of a block. -/
def entries : Nat → Read (List (Tree × Tree))
  | 0 => failure
  | steps + 1 => do
    if ← sees [.key] then
      skip
      let k ← nodeUnless steps .field [.key, .value, .blockEnd]
      let t ← fieldValue steps .field [.key, .value, .blockEnd]
      return (k, t) :: (← entries steps)
    else
      expect .blockEnd
      return []

/-- Reads the items of a list in brackets up to its end.  An item may be a record of one entry. -/
def innerItems : Nat → Bool → Read (List Tree)
  | 0, _ => failure
  | steps + 1, first => do
    if ← sees [.closeList] then
      skip
      return []
    if !first then expect .comma
    if ← sees [.closeList] then
      skip
      return []
    if ← sees [.key] then
      skip
      let e ← pair steps
      return .record [e] :: (← innerItems steps false)
    else
      let t ← node steps .inner
      return t :: (← innerItems steps false)

/-- Reads the entry that is an item of a list.  Where the key is left out, the next token does not
count. -/
def pair : Nat → Read (Tree × Tree)
  | 0 => failure
  | steps + 1 => do
    if ← sees [.value, .comma, .closeList] then
      skip
      return (absent, ← fieldValue steps .inner [.comma, .closeList])
    else
      let k ← node steps .inner
      return (k, ← fieldValue steps .inner [.comma, .closeList])

/-- Reads the entries of a record in braces up to its end. -/
def innerEntries : Nat → Bool → Read (List (Tree × Tree))
  | 0, _ => failure
  | steps + 1, first => do
    if ← sees [.closeRecord] then
      skip
      return []
    if !first then expect .comma
    if ← sees [.closeRecord] then
      skip
      return []
    if ← sees [.key] then
      skip
      let k ← nodeUnless steps .inner [.value, .comma, .closeRecord]
      let t ← fieldValue steps .inner [.comma, .closeRecord]
      return (k, t) :: (← innerEntries steps false)
    else
      let k ← node steps .inner
      return (k, absent) :: (← innerEntries steps false)

end

/-! ## Documents -/

/-- Reads directives; the version is given at most once, and so is every handle. -/
def directives : Nat → Bool → Read Unit
  | 0, _ => failure
  | steps + 1, versioned => do
    match ← peek with
    | some (.version major minor) =>
      if versioned ∨ major ≠ 1 ∨ (minor ≠ 1 ∧ minor ≠ 2) then failure
      skip
      directives steps true
    | some (.handle name start) =>
      if (← get).handles.any (·.1 == name) then failure
      modify fun r => { r with handles := (name, start) :: r.handles }
      skip
      directives steps versioned
    | _ => return ()

/-- Whether a document begins with a mark or a directive. -/
def seesOpening : Read Bool := do
  match ← peek with
  | some (.version _ _) | some (.handle _ _) | some .documentStart => return true
  | _ => return false

/-- Goes behind all marks that end a document. -/
def skipEnds : Nat → Read Unit
  | 0 => return ()
  | steps + 1 => do
    if ← sees [.documentEnd] then
      skip
      skipEnds steps

/-- Reads the document of a text. -/
def document (steps : Nat) : Read Tree := do
  if (← peek).isNone then return absent
  let t ←
    if ← seesOpening then do
      directives steps false
      expect .documentStart
      if (← peek).isNone ∨ (← seesOpening) ∨ (← sees [.documentEnd]) then pure absent
      else node steps .block
    else node steps .block
  skipEnds steps
  if (← peek).isSome then failure
  return t

end Read

/-- Reads a document written in YAML. -/
def read (text : List Char) : Decoded Tree := do
  let text := if text.head? = some '\ufeff' then text.tail else text
  let tokens ← need (scan text)
  let start : Reading := { tokens, anchors := [], nodes := [], handles := [] }
  return (← need ((Read.document (4 * tokens.length + 8)).run start)).1

end LoadReplay.Yaml
