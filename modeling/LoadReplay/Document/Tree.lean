import LoadReplay.SortedMap

/-!
# Documents

What a configuration file says, whatever format it is written in: a tree of lists and records with
scalars at the leaves.

Formats differ in what a scalar may be taken for.  A scalar is therefore described by its answers:
the text, the count, the truth value it gives where one is wanted, and what it is taken for where
nothing particular is wanted (`Plain`).  Reading a document is then the same for all formats, and a
failure has no details.
-/

namespace LoadReplay.Document

/-- What a scalar is taken for where nothing particular is wanted. -/
inductive Plain where
  | null
  | truth (b : Bool)
  | count (n : Nat)
  | number (x : Float)
  | text (s : String)
  /-- Something that no wanted value can be made of. -/
  | other

/-- A scalar, by its answers to what may be wanted. -/
structure Scalar where
  text : Option String
  /-- A whole number from zero up that fits in 64 bits. -/
  count : Option Nat
  /-- A whole number that fits in 64 bits with a sign. -/
  whole : Option Int
  number : Option Float
  truth : Option Bool
  /-- Whether it says that an optional value is not given. -/
  isNull : Bool
  /-- Whether it may stand for an empty list or record. -/
  isVoid : Bool
  plain : Plain

/-- Whether the items of a list may be taken for the fields of a record, in field order. -/
inductive Positional where
  | never
  /-- Only if no item is left over. -/
  | exactly
  | loosely
  deriving DecidableEq

/-- A document or a part of one.  Records keep their entries in writing order, with repetitions. -/
inductive Tree where
  | scalar (s : Scalar)
  | list (items : List Tree) (positional : Positional)
  | record (entries : List (Tree × Tree))

/-- The scalar that gives no answer at all. -/
def Scalar.mute : Scalar :=
  { text := none, count := none, whole := none, number := none, truth := none
    isNull := false, isVoid := false, plain := .other }

/-- A scalar that is what it is taken for, and nothing else. -/
def Scalar.ofPlain (p : Plain) : Scalar :=
  match p with
  | .null => { Scalar.mute with isNull := true, plain := p }
  | .truth b => { Scalar.mute with truth := some b, plain := p }
  | .count n => { Scalar.mute with count := some n, plain := p }
  | .number x => { Scalar.mute with number := some x, plain := p }
  | .text s => { Scalar.mute with text := some s, plain := p }
  | .other => Scalar.mute

/-- Why a document cannot be read: because of what it says, or because a duration in it leaves the
range of spans. -/
inductive Failure where
  | malformed
  | overflow
  deriving Repr, DecidableEq

/-- Something read from a document. -/
abbrev Decoded (α : Type) := Except Failure α

/-- A value that has to be there. -/
def need {α : Type} : Option α → Decoded α
  | some a => .ok a
  | none => .error .malformed

namespace Tree

/-- A scalar that no wanted value can be made of. -/
def refused : Tree := .scalar .mute

/-- The scalar at the root. -/
def scalar? : Tree → Option Scalar
  | .scalar s => some s
  | _ => none

/-- The text at the root, if a text is wanted. -/
def text? (t : Tree) : Option String := t.scalar?.bind (·.text)

/-- Whether the tree says that an optional value is not given. -/
def isNull (t : Tree) : Bool := t.scalar?.any (·.isNull)

/-- Whether the tree may stand for an empty list or record. -/
def isVoid (t : Tree) : Bool := t.scalar?.any (·.isVoid)

/-- What the root is taken for where nothing particular is wanted. -/
def plain? (t : Tree) : Option Plain := t.scalar?.map (·.plain)

/-- Reads a text. -/
def text (t : Tree) : Decoded String := need t.text?

/-- Reads a count. -/
def count (t : Tree) : Decoded Nat := need (t.scalar?.bind (·.count))

/-- Reads a whole number. -/
def whole (t : Tree) : Decoded Int := need (t.scalar?.bind (·.whole))

/-- Reads a number. -/
def number (t : Tree) : Decoded Float := need (t.scalar?.bind (·.number))

/-- Reads a truth value. -/
def truth (t : Tree) : Decoded Bool := need (t.scalar?.bind (·.truth))

/-- Reads a value that need not be given. -/
def optional {α : Type} (read : Tree → Decoded α) (t : Tree) : Decoded (Option α) :=
  if t.isNull then .ok none else (read t).map some

/-- The items of a list. -/
def items : Tree → Decoded (List Tree)
  | .list items _ => .ok items
  | t => if t.isVoid then .ok [] else .error .malformed

/-- Reads a list of values. -/
def listOf {α : Type} (read : Tree → Decoded α) (t : Tree) : Decoded (List α) := do
  (← t.items).mapM read

/-- The entries of a record. -/
def entries : Tree → Decoded (List (Tree × Tree))
  | .record entries => .ok entries
  | t => if t.isVoid then .ok [] else .error .malformed

/-- Reads values by key; of a repeated key the last one counts. -/
def mapOf {α : Type} (read : Tree → Decoded α) (t : Tree) : Decoded (SortedMap String α) := do
  let pairs ← (← t.entries).mapM fun e => do return (← e.1.text, ← read e.2)
  return .ofList pairs

mutual

/-- The same tree with every scalar reduced to what it is taken for where nothing is wanted.  A tree
with a scalar that no wanted value can be made of has no such reading. -/
def settled? : Tree → Option Tree
  | .scalar s =>
    match s.plain with
    | .other => none
    | p => some (.scalar (.ofPlain p))
  | .list items _ => do return .list (← settledItems? items) .never
  | .record entries => do return .record (← settledEntries? entries)

/-- `settled?` for the items of a list. -/
def settledItems? : List Tree → Option (List Tree)
  | [] => some []
  | t :: rest => do return (← settled? t) :: (← settledItems? rest)

/-- `settled?` for the entries of a record. -/
def settledEntries? : List (Tree × Tree) → Option (List (Tree × Tree))
  | [] => some []
  | (k, t) :: rest => do return (← settled? k, ← settled? t) :: (← settledEntries? rest)

end

end Tree

/-! ## Records with known fields -/

/-- The values of the known fields of a record, by name. -/
abbrev Fields := List (String × Tree)

/-- Keeps the known fields of some entries, in order.  A known field must not be given twice. -/
def Fields.ofEntries (names : List String) : List (String × Tree) → Decoded Fields
  | [] => .ok []
  | (k, t) :: rest => do
    let fields ← ofEntries names rest
    if k ∈ names then
      if fields.any (·.1 == k) then .error .malformed else .ok ((k, t) :: fields)
    else .ok fields

/-- The name of the field that a key names: its text, or for a count the name at that place. -/
def fieldName (names : List String) (key : Tree) : Decoded String :=
  need (key.text?.or ((key.scalar?.bind (·.count)).map fun i => names.getD i ""))

/-- The fields of a record, or of a list that may stand for one. -/
def Tree.fields (names : List String) (t : Tree) : Decoded Fields :=
  match t with
  | .list items positional =>
    if positional = .loosely ∨ (positional = .exactly ∧ items.length ≤ names.length) then
      .ok (names.zip items)
    else .error .malformed
  | t => do
    let entries ← (← t.entries).mapM fun e => do return (← fieldName names e.1, e.2)
    Fields.ofEntries names entries

/-- The fields of a record, or of a list that has an item for each of them. -/
def Tree.allFields (names : List String) (t : Tree) : Decoded Fields :=
  match t with
  | .list items _ => if items.length < names.length then .error .malformed else t.fields names
  | t => t.fields names

namespace Fields

variable {α : Type}

/-- A field that has to be there. -/
def required (f : Fields) (name : String) (read : Tree → Decoded α) : Decoded α := do
  read (← need (f.lookup name))

/-- A field that has a value of its own when it is not there. -/
def withDefault (f : Fields) (name : String) (absent : α) (read : Tree → Decoded α) : Decoded α :=
  match f.lookup name with
  | none => .ok absent
  | some t => read t

/-- A field that need not be there, and may be null. -/
def optional (f : Fields) (name : String) (read : Tree → Decoded α) : Decoded (Option α) :=
  f.withDefault name none (Tree.optional read)

end Fields

end LoadReplay.Document
