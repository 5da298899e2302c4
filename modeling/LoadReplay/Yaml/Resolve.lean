import LoadReplay.Document.Tree
import LoadReplay.Number.Reader
import LoadReplay.Yaml.Token

/-!
# What scalars of YAML mean

A scalar of YAML may be taken for a text whatever it looks like; a plain one may also be taken for a
number, a truth value or null where such a thing is wanted.  Only where nothing particular is wanted
does its look decide, or its tag.
-/

namespace LoadReplay.Yaml

open Document (Plain Scalar)

/-- Whether a text says null. -/
def isNullWord (s : String) : Bool := s ∈ ["null", "Null", "NULL", "~"]

/-- The truth value that a text says. -/
def truth? (s : String) : Option Bool :=
  if s ∈ ["true", "True", "TRUE"] then some true
  else if s ∈ ["false", "False", "FALSE"] then some false
  else none

/-- The bases of whole numbers that are said by their first characters. -/
def bases : List (List Char × Nat) := [(['0', 'x'], 16), (['0', 'o'], 8), (['0', 'b'], 2)]

/-- The text without one sign at its front. -/
def unsigned : List Char → List Char
  | '+' :: rest => rest
  | '-' :: rest => rest
  | s => s

/-- Whether a text has only digits and is no number because it begins with zero. -/
def isZeroPadded (s : List Char) : Bool :=
  match unsigned s with
  | '0' :: c :: rest => (c :: rest).all Number.isDigit
  | _ => false

/-- A whole number without a sign below `limit`, in the base that it says. -/
def magnitude? (limit : Nat) (s : List Char) : Option Nat :=
  let based := bases.findSome? fun b =>
    (Text.stripStart? b.1 s).bind fun digits => (Number.readDigits b.2 digits).filter (· < limit)
  based.or ((Number.readDigits 10 s).filter (· < limit))

/-- A whole number from zero up below `limit`; it may have a plus sign. -/
def count? (limit : Nat) (s : List Char) : Option Nat :=
  if isZeroPadded s then none
  else
    match s with
    | '+' :: rest => magnitude? limit rest
    | s => magnitude? limit s

/-- The number without its minus sign, if it has one and is at most `limit` below zero. -/
def negative? (limit : Nat) (s : List Char) : Option Nat :=
  match s with
  | '-' :: rest => if isZeroPadded s then none else magnitude? (limit + 1) rest
  | _ => none

/-- The words for numbers beyond the finite ones, without a plus sign. -/
def infinities : List (String × Float) :=
  [(".inf", 1.0 / 0.0), (".Inf", 1.0 / 0.0), (".INF", 1.0 / 0.0), ("-.inf", -1.0 / 0.0),
    ("-.Inf", -1.0 / 0.0), ("-.INF", -1.0 / 0.0)]

/-- A finite number. -/
def finite? (s : List Char) : Option Float := (Number.readNumber s).filter (·.isFinite)

/-- The number that a text says. -/
def number? (s : List Char) : Option Float :=
  if String.ofList s ∈ [".nan", ".NaN", ".NAN"] then some (0.0 / 0.0)
  else
    match s with
    | '+' :: rest =>
      if rest.head? = some '+' ∨ rest.head? = some '-' then none
      else (infinities.lookup (String.ofList rest)).or (finite? rest)
    | s => (infinities.lookup (String.ofList s)).or (finite? s)

/-- The whole number that a text says; those of more than 64 bits are of no use. -/
def whole? (s : List Char) : Option Plain :=
  match count? (Nat.pow 2 64) s with
  | some n => some (.count n)
  | none =>
    match negative? (Nat.pow 2 63) s with
    | some 0 => some (.count 0)
    | some n => some (.number (-(Number.ofCount n)))
    | none =>
      if (count? (Nat.pow 2 128) s).isSome ∨ (negative? (Nat.pow 2 127) s).isSome then some .other
      else none

/-- What a plain scalar is taken for by its look. -/
def lookOf (text : String) : Plain :=
  let s := text.toList
  if s.isEmpty ∨ isNullWord text then .null
  else
    match truth? text with
    | some b => .truth b
    | none =>
      match whole? s with
      | some p => p
      | none =>
        if isZeroPadded s then .text text
        else ((number? s).map .number).getD (.text text)

/-! ## Tags -/

/-- The tags of the core schema. -/
def coreTag (name : String) : String := "tag:yaml.org,2002:" ++ name

/-- What a scalar with a tag is taken for.  Tags that are not of the core schema make it useless if
they are local, and leave it a text otherwise. -/
def taggedAs (tag text : String) : Plain :=
  if tag.startsWith "!" then .other
  else if tag = coreTag "bool" then ((truth? text).map .truth).getD .other
  else if tag = coreTag "int" then (whole? text.toList).getD .other
  else if tag = coreTag "float" then ((number? text.toList).map .number).getD .other
  else if tag = coreTag "null" then (if isNullWord text then .null else .other)
  else .text text

/-- Whether a scalar may be taken for a thing whose core tag has a name: if it is plain, or a block
with that tag. -/
def mayBe (name : String) (style : Style) (tag : Option String) : Bool :=
  style = .plain || (style = .literal && tag = some (coreTag name))

/-- A whole number of 64 bits with a sign. -/
def signed? (s : List Char) : Option Int :=
  match count? (Nat.pow 2 63) s with
  | some n => some n
  | none => (negative? (Nat.pow 2 63) s).map fun n => -(n : Int)

/-- The scalar with a text, a style and possibly a tag. -/
def scalarOf (text : String) (style : Style) (tag : Option String) : Scalar :=
  let s := text.toList
  let look : Plain := if style = .plain then lookOf text else .text text
  { text := some text
    count := if mayBe "int" style tag then count? (Nat.pow 2 64) s else none
    whole := if mayBe "int" style tag then signed? s else none
    number := if mayBe "float" style tag then number? s else none
    truth := if mayBe "bool" style tag then truth? text else none
    isNull :=
      style = .plain && match tag with
        | none => s.isEmpty || isNullWord text
        | some tag => tag = coreTag "null" && isNullWord text
    isVoid := style = .plain && s.isEmpty
    plain := match tag with
      | none => look
      | some tag => taggedAs tag text }

end LoadReplay.Yaml
