import LoadReplay.Json.Lexer
import LoadReplay.Number.Layout

/-!
# Writing JSON values

Values are written without blanks.  In a text, only the quotation mark, the backslash and the
characters below the space are escaped.
-/

namespace LoadReplay.Json

/-- How numbers that are not whole are written: a whole value keeps a decimal, and an exponent is
used below `10 ^ -5` and from `10 ^ 16` on.  Values that are not finite are null. -/
def layout : Number.Layout :=
  { leastPoint := some (-4), greatestPoint := some 16, wholeMark := ".0", tie := .even
    notANumber := "null", infinity := "null" }

/-- Whether a value is neither infinite nor a NaN. -/
def isFinite (x : Float) : Bool :=
  match Number.parts x with
  | .finite _ _ _ => true
  | _ => false

/-- A number that is not whole, or null if it is not finite. -/
def Value.ofFloat (x : Float) : Value :=
  if isFinite x then .number (.real x) else .null

/-- A number where there is one, otherwise null. -/
def Value.ofFloat? : Option Float → Value
  | none => .null
  | some x => .ofFloat x

/-- A count. -/
def Value.ofNat (n : Nat) : Value := .number (.count n)

/-- A text. -/
def Value.ofString (s : String) : Value := .text (some s)

/-- A hexadecimal digit. -/
def hexDigit (n : Nat) : Char := Nat.digitChar n

/-- How a character is written inside a text. -/
def escape (c : Char) : List Char :=
  if c = quote then [backslash, quote]
  else if c = backslash then [backslash, backslash]
  else if c = '\x08' then [backslash, 'b']
  else if c = '\x0c' then [backslash, 'f']
  else if c = '\n' then [backslash, 'n']
  else if c = '\x0d' then [backslash, 'r']
  else if c = '\t' then [backslash, 't']
  else if c.toNat < 32 then
    [backslash, 'u', '0', '0', hexDigit (c.toNat / 16), hexDigit (c.toNat % 16)]
  else [c]

/-- A text in quotation marks. -/
def quoted (s : List Char) : List Char := quote :: s.flatMap escape ++ [quote]

/-- How a number is written.  A number beyond binary64 has no written form of its own. -/
def Numeral.chars : Numeral → List Char
  | .count n => Nat.toDigits 10 n
  | .negative n => '-' :: Nat.toDigits 10 n
  | .real x => (layout.write x).toList
  | .outOfRange => "null".toList

/-- How a token is written.  A text with half of a pair has no written form of its own. -/
def Token.chars : Token → List Char
  | .openList => ['[']
  | .closeList => [']']
  | .openRecord => ['\x7b']
  | .closeRecord => ['\x7d']
  | .comma => [',']
  | .colon => [':']
  | .null => "null".toList
  | .truth b => if b then "true".toList else "false".toList
  | .number n => n.chars
  | .text t => quoted (t.getD "").toList

/-- The text of a value. -/
def Value.chars (v : Value) : List Char := v.tokens.flatMap Token.chars

/-- The text of a value. -/
def Value.write (v : Value) : String := String.ofList v.chars

end LoadReplay.Json
