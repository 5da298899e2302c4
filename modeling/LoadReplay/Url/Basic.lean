import LoadReplay.Text.Split

/-!
# URLs

A URL taken into its parts, and its text.  `Url.Reader` takes texts apart by the rules of the URL
standard; the parts are kept in their normal form, so that the text of a URL is a plain
concatenation.
-/

namespace LoadReplay

/-- A host in its normal form. -/
inductive Url.Host where
  /-- A name, in lower case where the scheme asks for it. -/
  | name (text : String)
  | ipv4 (address : Nat)
  /-- The eight 16-bit pieces of an address. -/
  | ipv6 (pieces : List Nat)
  deriving Repr, DecidableEq

/-- What stands between two slashes and the path. -/
structure Url.Authority where
  /-- The user name with the password behind a colon, if there is one. -/
  userinfo : Option String
  host : Option Url.Host
  /-- The port, unless it is the one that belongs to the scheme. -/
  port : Option Nat
  deriving Repr, DecidableEq

/-- A path. -/
inductive Url.Path where
  /-- A path that cannot be the base of another one. -/
  | opaque' (text : String)
  /-- The parts behind the slashes. -/
  | segments (list : List String)
  deriving Repr, DecidableEq

/-- A URL. -/
structure Url where
  scheme : String
  authority : Option Url.Authority
  path : Url.Path
  query : Option String
  fragment : Option String
  deriving Repr, DecidableEq

namespace Url

/-- Why a text is not a URL. -/
inductive ParseError where
  | emptyHost
  | invalidName
  | invalidPort
  | invalidIpv4
  | invalidIpv6
  | invalidCharacter
  | relative
  deriving Repr, DecidableEq

/-- The text of an error. -/
def ParseError.message : ParseError → String
  | .emptyHost => "empty host"
  | .invalidName => "invalid international domain name"
  | .invalidPort => "invalid port number"
  | .invalidIpv4 => "invalid IPv4 address"
  | .invalidIpv6 => "invalid IPv6 address"
  | .invalidCharacter => "invalid domain character"
  | .relative => "relative URL without a base"

/-- The four bytes of an address, with points between them. -/
def ipv4Text (address : Nat) : String :=
  Text.glue "." ([24, 16, 8, 0].map fun shift => toString (address / Nat.pow 2 shift % 256))

/-- The pieces of an address in hexadecimal. -/
def pieceText (piece : Nat) : String := String.ofList (Nat.toDigits 16 piece)

/-- How many zeros a list begins with. -/
def zerosInFront (pieces : List Nat) : Nat := (pieces.takeWhile (· == 0)).length

/-- The greatest number of neighbouring zeros. -/
def longestZeros : List Nat → Nat
  | [] => 0
  | p :: rest => max (zerosInFront (p :: rest)) (longestZeros rest)

/-- The pieces before and behind the first run of `n` zeros. -/
def splitZeros (n : Nat) : List Nat → List Nat × List Nat
  | [] => ([], [])
  | p :: rest =>
    if zerosInFront (p :: rest) = n then ([], (p :: rest).drop n)
    else
      let parts := splitZeros n rest
      (p :: parts.1, parts.2)

/-- The text of an address.  Its first longest run of at least two zeros is left out. -/
def ipv6Text (pieces : List Nat) : String :=
  let n := longestZeros pieces
  let join (ps : List Nat) : String := Text.glue ":" (ps.map pieceText)
  if n < 2 then join pieces
  else
    let parts := splitZeros n pieces
    join parts.1 ++ "::" ++ join parts.2

/-- The text of a host. -/
def Host.text : Host → String
  | .name text => text
  | .ipv4 address => ipv4Text address
  | .ipv6 pieces => "[" ++ ipv6Text pieces ++ "]"

/-- The text of an authority, without the slashes. -/
def Authority.text (a : Authority) : String :=
  let userinfo :=
    match a.userinfo with
    | none => ""
    | some u => u ++ "@"
  let host := (a.host.map Host.text).getD ""
  let port :=
    match a.port with
    | none => ""
    | some p => ":" ++ toString p
  userinfo ++ host ++ port

/-- The text of a path. -/
def Path.text : Path → String
  | .opaque' text => text
  | .segments list => String.join (list.map fun s => "/" ++ s)

/-- A part that is written behind a mark if it is there. -/
def behind (mark : String) : Option String → String
  | none => ""
  | some s => mark ++ s

/-- The path with the query. -/
def pathAndQuery (u : Url) : String := u.path.text ++ behind "?" u.query

/-- Whether a path without a host would be read as a host. -/
def Path.looksLikeHost : Path → Bool
  | .segments ("" :: _ :: _) => true
  | _ => false

/-- The text of a URL. -/
def text (u : Url) : String :=
  let authority :=
    match u.authority with
    | some a => "//" ++ a.text
    | none => if u.path.looksLikeHost then "/." else ""
  u.scheme ++ ":" ++ authority ++ u.pathAndQuery ++ behind "#" u.fragment

/-- Whether paths can be resolved against the URL. -/
def canBeBase (u : Url) : Bool :=
  match u.path with
  | .opaque' _ => u.authority.isSome
  | .segments _ => true

end Url

end LoadReplay
