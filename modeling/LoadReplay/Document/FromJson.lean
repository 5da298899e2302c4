import LoadReplay.Document.Tree
import LoadReplay.Json.Reader

/-!
# Documents written in JSON

A JSON scalar is only taken for what it is, except that every number may be taken for a binary64
value.  A list may stand for a record if no item is left over.
-/

namespace LoadReplay.Document

/-- A number of a JSON text. -/
def Scalar.ofNumeral : Json.Numeral → Scalar
  | .count n =>
    { Scalar.ofPlain (.count n) with
      whole := if n < Nat.pow 2 63 then some n else none, number := some (Number.ofCount n) }
  | .negative n =>
    let x := -(Number.ofCount n)
    { Scalar.ofPlain (.number x) with whole := some (-n) }
  | .real x => .ofPlain (.number x)
  | .outOfRange => .mute

/-- A text of a JSON text. -/
def Scalar.ofJsonText : Json.Text → Scalar
  | none => .mute
  | some s => .ofPlain (.text s)

mutual

/-- The document that a JSON value is. -/
def Tree.ofJson : Json.Value → Tree
  | .null => .scalar (.ofPlain .null)
  | .truth b => .scalar (.ofPlain (.truth b))
  | .number n => .scalar (.ofNumeral n)
  | .text t => .scalar (.ofJsonText t)
  | .list items => .list (ofJsonItems items) .exactly
  | .record entries => .record (ofJsonEntries entries)

/-- `ofJson` for the items of a list. -/
def Tree.ofJsonItems : List Json.Value → List Tree
  | [] => []
  | v :: rest => ofJson v :: ofJsonItems rest

/-- `ofJson` for the entries of a record. -/
def Tree.ofJsonEntries : List (Json.Text × Json.Value) → List (Tree × Tree)
  | [] => []
  | (k, v) :: rest => (.scalar (.ofJsonText k), ofJson v) :: ofJsonEntries rest

end

/-- Reads a document written in JSON. -/
def Tree.readJson (s : List Char) : Decoded Tree := (need (Json.read s)).map Tree.ofJson

end LoadReplay.Document
