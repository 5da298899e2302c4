/-!
# JSON values

The values of a JSON text and the tokens that they are written with.  Numbers keep the three kinds
that readers tell apart: counts, negative whole numbers, and everything else as binary64.  Two kinds
of leaf stand for content that is well formed but has no value: numbers beyond binary64 and texts
with half of a surrogate pair.
-/

namespace LoadReplay.Json

/-- A number of a JSON text. -/
inductive Numeral where
  /-- A whole number from zero up that fits in 64 bits. -/
  | count (n : Nat)
  /-- The whole number `-n`, for `n` from one to `2 ^ 63`. -/
  | negative (n : Nat)
  | real (x : Float)
  /-- A number beyond the range of binary64. -/
  | outOfRange

/-- A text, or nothing if it names half of a surrogate pair. -/
abbrev Text := Option String

/-- A JSON value.  Records keep their entries in writing order, with repetitions. -/
inductive Value where
  | null
  | truth (b : Bool)
  | number (n : Numeral)
  | text (t : Text)
  | list (items : List Value)
  | record (entries : List (Text × Value))

instance : Inhabited Value := ⟨.null⟩

/-- A token of a JSON text. -/
inductive Token where
  | openList
  | closeList
  | openRecord
  | closeRecord
  | comma
  | colon
  | null
  | truth (b : Bool)
  | number (n : Numeral)
  | text (t : Text)

mutual

/-- The tokens that a value is written with. -/
def Value.tokens : Value → List Token
  | .null => [.null]
  | .truth b => [.truth b]
  | .number n => [.number n]
  | .text t => [.text t]
  | .list [] => [.openList, .closeList]
  | .list (v :: rest) => .openList :: v.tokens ++ moreItems rest ++ [.closeList]
  | .record [] => [.openRecord, .closeRecord]
  | .record ((k, v) :: rest) =>
    .openRecord :: .text k :: .colon :: v.tokens ++ moreEntries rest ++ [.closeRecord]

/-- The tokens of the items behind the first one. -/
def moreItems : List Value → List Token
  | [] => []
  | v :: rest => .comma :: v.tokens ++ moreItems rest

/-- The tokens of the entries behind the first one. -/
def moreEntries : List (Text × Value) → List Token
  | [] => []
  | (k, v) :: rest => .comma :: .text k :: .colon :: v.tokens ++ moreEntries rest

end

end LoadReplay.Json
