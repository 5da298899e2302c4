import LoadReplay.Url.Basic
import LoadReplay.Url.Domain

/-!
# Hosts of URLs

A host is an IPv6 address in brackets, an IPv4 address if its last label is a number, or a name.
Under a scheme of the web a name is taken in its ASCII form.
-/

namespace LoadReplay.Url

/-- The value of a part of an IPv4 address: nothing if it is no number at all, and a missing value
if it is one that does not fit in 32 bits.  A zero in front makes it octal, `0x` hexadecimal. -/
def ipv4Number? (s : List Char) : Option (Option Nat) :=
  let read (base : Nat) (digits : List Char) : Option (Option Nat) :=
    if digits.isEmpty then some (some 0)
    else (Number.readDigits base digits).map fun n => if n < Nat.pow 2 32 then some n else none
  match s with
  | [] => none
  | '0' :: 'x' :: rest => read 16 rest
  | '0' :: 'X' :: rest => read 16 rest
  | '0' :: c :: rest => read 8 (c :: rest)
  | s => read 10 s

/-- The labels of a name, without an empty one at the end. -/
def labels (s : List Char) : List (List Char) :=
  let all := Text.splitAll '.' s
  if all.getLast? = some [] then all.dropLast else all

/-- Whether the last label of a name is a number. -/
def endsInNumber (s : List Char) : Bool :=
  match (labels s).getLast? with
  | none => false
  | some last =>
    (!last.isEmpty && last.all Number.isDigit) || (ipv4Number? last).isSome

/-- Reads an IPv4 address.  The last of up to four numbers fills the bytes that the others leave. -/
def readIpv4? (s : List Char) : Option Nat := do
  let parts := labels s
  if 4 < parts.length then none
  let numbers ← parts.mapM fun p => (ipv4Number? p).bind id
  let last ← numbers.getLast?
  let front := numbers.dropLast
  if Nat.pow 256 (4 - front.length) ≤ last ∨ front.any (255 < ·) then none
  let bytes := List.zipWith (fun n shift => n * Nat.pow 2 shift) front [24, 16, 8]
  return bytes.foldr (· + ·) last

/-- Reads a byte of an IPv4 address at the end of an IPv6 address. -/
def readByte? (s : List Char) : Option Nat :=
  if s.length ≠ 1 ∧ s.head? = some '0' then none
  else (Number.readDigits 10 s).filter (· ≤ 255)

/-- Reads a piece of an IPv6 address. -/
def readPiece? (s : List Char) : Option Nat :=
  if 4 < s.length then none else Number.readDigits 16 s

/-- Reads the pieces between colons.  Where `tail` allows it, the last one may be an IPv4 address,
which makes two pieces. -/
def readPieces? (tail : Bool) : List (List Char) → Option (List Nat)
  | [] => some []
  | [s] =>
    match Text.splitAll '.' s with
    | [a, b, c, d] =>
      if tail then do
        let a ← readByte? a
        let b ← readByte? b
        let c ← readByte? c
        let d ← readByte? d
        return [a * 256 + b, c * 256 + d]
      else none
    | _ => (readPiece? s).map fun p => [p]
  | s :: rest => do
    let p ← readPiece? s
    return p :: (← readPieces? tail rest)

/-- Reads the pieces of a part of an address, which may be empty. -/
def readSide? (tail : Bool) (s : List Char) : Option (List Nat) :=
  if s.isEmpty then some [] else readPieces? tail (Text.splitAll ':' s)

/-- Reads an IPv6 address.  Two colons stand for at least one piece of zeros. -/
def readIpv6? (s : List Char) : Option (List Nat) :=
  match Text.breakAt "::".toList s with
  | none => (readSide? true s).filter fun ps => ps.length == 8
  | some (before, behind) => do
    let left ← readSide? false before
    let right ← readSide? true behind
    if left.length + right.length ≤ 7 then
      return left ++ List.replicate (8 - left.length - right.length) 0 ++ right
    else none

/-- Characters that no host may hold. -/
def isForbidden (c : Char) : Bool :=
  c ∈ ['\x00', '\t', '\n', '\x0d', ' ', '#', '/', ':', '<', '>', '?', '@', '[', '\x5c', ']', '^',
    '|']

/-- Characters that no name under a scheme of the web may hold. -/
def isForbiddenInName (c : Char) : Bool := isForbidden c || c == '%' || controls c

/-- Reads an address in brackets. -/
def readBracketed (s : List Char) : Except ParseError Host :=
  match (Text.stripEnd? "]".toList s).bind readIpv6? with
  | some pieces => .ok (.ipv6 pieces)
  | none => .error .invalidIpv6

/-- Reads a host under a scheme of the web. -/
def readWebHost [Idna] (s : List Char) : Except ParseError Host :=
  match s with
  | '[' :: rest => readBracketed rest
  | s =>
    match Idna.toAscii (unescape s) with
    | none => .error .invalidName
    | some name =>
      if name.any isForbiddenInName then .error .invalidName
      else if name.isEmpty then .error .emptyHost
      else if endsInNumber name then
        match readIpv4? name with
        | some address => .ok (.ipv4 address)
        | none => .error .invalidIpv4
      else .ok (.name (String.ofList name))

/-- Reads a host under any other scheme. -/
def readOpaqueHost (s : List Char) : Except ParseError Host :=
  match s with
  | '[' :: rest => readBracketed rest
  | s =>
    if s.any isForbidden then .error .invalidCharacter
    else .ok (.name (escape controls s))

end LoadReplay.Url
