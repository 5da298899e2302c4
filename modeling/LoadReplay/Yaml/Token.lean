/-!
# Tokens of YAML

Blocks are told by indentation, so their beginnings and ends are tokens of their own.
-/

namespace LoadReplay.Yaml

/-- How a scalar is written. -/
inductive Style where
  | plain
  | quoted
  /-- A block that keeps its lines. -/
  | literal
  /-- A block whose lines are joined. -/
  | folded
  deriving Repr, DecidableEq

/-- A token of a YAML text. -/
inductive Token where
  | version (major minor : Nat)
  /-- Says what the tags with a handle begin with. -/
  | handle (name start : String)
  | documentStart
  | documentEnd
  | blockList
  | blockRecord
  | blockEnd
  | openList
  | closeList
  | openRecord
  | closeRecord
  | comma
  /-- The hyphen before an item of a block. -/
  | item
  | key
  | value
  | alias (name : String)
  | anchor (name : String)
  | tag (handle ending : String)
  | scalar (text : String) (style : Style)
  deriving Repr, DecidableEq

end LoadReplay.Yaml
