import LoadReplay.Url.Host

/-!
# Reading URLs

Taking a text apart by the rules of the URL standard.  There are three kinds of schemes: those of
the web, which always have a host and take backslashes for slashes; `file`, whose host may be
missing; and all others, whose URLs have a host only behind two slashes and otherwise a path of any
form.

The reading goes from left to right, each part taking the front of the text that is left.
-/

namespace LoadReplay.Url

/-- The kinds of schemes. -/
inductive Kind where
  | web
  | file
  | other
  deriving DecidableEq

/-- The port that belongs to a scheme. -/
def defaultPort (scheme : String) : Option Nat :=
  [("http", 80), ("https", 443), ("ws", 80), ("wss", 443), ("ftp", 21)].lookup scheme

/-- The kind of a scheme. -/
def Kind.of (scheme : String) : Kind :=
  if (defaultPort scheme).isSome then .web else if scheme = "file" then .file else .other

/-- The text without control characters and spaces at its ends, and without tabs and line ends. -/
def cleaned (s : List Char) : List Char :=
  let isEdge (c : Char) : Bool := c.toNat ≤ 0x20
  let inner := ((s.dropWhile isEdge).reverse.dropWhile isEdge).reverse
  inner.filter fun c => !(c ∈ ['\t', '\n', '\x0d'])

/-- Whether a character may stand in a scheme behind its first letter. -/
def isSchemeChar (c : Char) : Bool :=
  ('a' ≤ c && c ≤ 'z') || ('A' ≤ c && c ≤ 'Z') || Number.isDigit c || c ∈ ['+', '-', '.']

/-- Whether a character is an ASCII letter. -/
def isLetter (c : Char) : Bool := ('a' ≤ c && c ≤ 'z') || ('A' ≤ c && c ≤ 'Z')

/-- The scheme in front of a text, in lower case, and the text behind its colon. -/
def scanScheme? (s : List Char) : Option (String × List Char) :=
  if s.head?.any isLetter then
    match s.dropWhile isSchemeChar with
    | ':' :: rest => some (String.ofList (Text.lower (s.takeWhile isSchemeChar)), rest)
    | _ => none
  else none

/-- Whether a character divides parts of a path. -/
def Kind.isSlash (k : Kind) (c : Char) : Bool := c == '/' || (k != .other && c == '\x5c')

/-- Whether a character ends an authority. -/
def Kind.endsAuthority (k : Kind) (c : Char) : Bool := k.isSlash c || c == '?' || c == '#'

/-! ## Authorities -/

/-- The text before the last `@` of an authority, if it has one, and the text behind it. -/
def splitUserinfo (k : Kind) (s : List Char) : Option (List Char × List Char) :=
  let authority := s.takeWhile fun c => !k.endsAuthority c
  let rest := s.dropWhile fun c => !k.endsAuthority c
  let behind := (authority.reverse.takeWhile (· != '@')).reverse
  if behind.length = authority.length then none
  else some (authority.take (authority.length - behind.length - 1), behind ++ rest)

/-- The written form of a user name and a password.  An empty password is left out. -/
def userinfoText (s : List Char) : Option String :=
  let name := s.takeWhile (· != ':')
  let password := (s.dropWhile (· != ':')).drop 1
  let text := escape userinfoSet name
    ++ (if password.isEmpty then "" else ":" ++ escape userinfoSet password)
  if text.isEmpty then none else some text

/-- The user name and password of an authority, and the text behind them. -/
def scanUserinfo (k : Kind) (s : List Char) :
    Except ParseError (Option String × List Char) :=
  match splitUserinfo k s with
  | none => .ok (none, s)
  | some ([], rest) =>
    if rest.head?.any k.endsAuthority then .error .emptyHost else .ok (none, rest)
  | some (userinfo, rest) => .ok (userinfoText userinfo, rest)

/-- The text of a host: up to the end of the authority or a colon outside of brackets. -/
def hostSpan (k : Kind) (bracketed : Bool) : List Char → List Char × List Char
  | [] => ([], [])
  | c :: rest =>
    if (c = ':' ∧ !bracketed) ∨ k.endsAuthority c then ([], c :: rest)
    else
      let bracketed := if c = '[' then true else if c = ']' then false else bracketed
      let p := hostSpan k bracketed rest
      (c :: p.1, p.2)

/-- The port behind a colon, and the text behind it. -/
def scanPort (scheme : String) (s : List Char) : Except ParseError (Option Nat × List Char) :=
  let digits := s.takeWhile Number.isDigit
  let rest := s.dropWhile Number.isDigit
  let port := (Number.readDigits 10 digits).getD 0
  if 65535 < port then .error .invalidPort
  else if rest.head?.any fun c => !(c ∈ ['/', '\x5c', '?', '#']) then .error .invalidPort
  else if digits.isEmpty ∨ some port = defaultPort scheme then .ok (none, rest)
  else .ok (some port, rest)

/-- The host and the port, and the text behind them. -/
def scanHostPort [Idna] (scheme : String) (s : List Char) :
    Except ParseError (Option Host × Option Nat × List Char) := do
  let k := Kind.of scheme
  let (text, rest) := hostSpan k false s
  if k = .web ∧ text.isEmpty then .error .emptyHost
  let host ← if k = .web then readWebHost text else readOpaqueHost text
  let host := if host = .name "" then none else some host
  match rest with
  | ':' :: rest =>
    if host.isNone then .error .emptyHost
    let (port, rest) ← scanPort scheme rest
    return (host, port, rest)
  | rest => return (host, none, rest)

/-- The authority behind two slashes, and the text behind it. -/
def scanAuthority [Idna] (scheme : String) (s : List Char) :
    Except ParseError (Authority × List Char) := do
  let (userinfo, s) ← scanUserinfo (Kind.of scheme) s
  let (host, port, s) ← scanHostPort scheme s
  if host.isNone ∧ userinfo.isSome then .error .emptyHost
  return ({ userinfo, host, port }, s)

/-! ## Paths -/

/-- Whether a part of a path is a letter with a colon or a bar, a drive. -/
def isDrive : List Char → Bool
  | [c, d] => isLetter c && (d == ':' || d == '|')
  | _ => false

/-- Whether a part means the part before it. -/
def isDoubleDot (s : List Char) : Bool :=
  Text.lower s ∈ ["..", ".%2e", "%2e.", "%2e%2e"].map String.toList

/-- Whether a part means nothing. -/
def isSingleDot (s : List Char) : Bool := Text.lower s ∈ [".", "%2e"].map String.toList

/-- A drive in its normal form. -/
def normalDrive (s : List Char) : List Char :=
  if isDrive s then s.take 1 ++ [':'] else s

/-- The parts so far, last first, without the last one.  A drive at the root of a file path stays.
-/
def dropLastPart (k : Kind) : List (List Char) → List (List Char)
  | [] => []
  | p :: rest => if k = .file ∧ rest.isEmpty ∧ isDrive p then [p] else rest

/-- Adds a part to the parts so far, last first.  `last` says whether the path ends with it. -/
def addPart (k : Kind) (done : List (List Char)) (part : List Char) (last : Bool) :
    List (List Char) :=
  if isDoubleDot part then
    let done := dropLastPart k done
    if last then [] :: done else done
  else if isSingleDot part then if last then [] :: done else done
  else if k = .file ∧ done.isEmpty then normalDrive part :: done
  else part :: done

/-- Resolves the parts of a path in order. -/
def addParts (k : Kind) (done : List (List Char)) : List (List Char) → List (List Char)
  | [] => done
  | [part] => addPart k done part true
  | part :: rest => addParts k (addPart k done part false) rest

/-- The parts between slashes. -/
def splitPath (isSlash : Char → Bool) : List Char → List (List Char)
  | [] => [[]]
  | c :: rest =>
    if isSlash c then [] :: splitPath isSlash rest
    else
      match splitPath isSlash rest with
      | [] => [[c]]
      | part :: parts => (c :: part) :: parts

/-- In a file path, the first part ends behind a drive. -/
def cutDrive (parts : List (List Char)) : List (List Char) :=
  match parts with
  | (c :: d :: e :: more) :: rest =>
    if isDrive [c, d] then [c, d] :: (e :: more) :: rest else parts
  | parts => parts

/-- The path of the parts behind its first slash.  In a file path empty parts in front do not
count. -/
def pathOf (k : Kind) (s : List Char) : Path :=
  let parts := splitPath k.isSlash s
  let parts :=
    if k = .file then
      let kept := parts.dropWhile List.isEmpty
      if kept.isEmpty then [[]] else cutDrive kept
    else parts
  let done := (addParts k [] parts).reverse
  let done := if k = .file then done.dropWhile List.isEmpty else done
  let done := if k = .file ∧ done.isEmpty then [[]] else done
  .segments (done.map (escape pathSet))

/-- The text up to a query or fragment, and from there on. -/
def beforeQuery (s : List Char) : List Char × List Char :=
  (s.takeWhile fun c => c != '?' && c != '#', s.dropWhile fun c => c != '?' && c != '#')

/-- The path behind an authority.  Only schemes of the web and files always have one. -/
def pathBehindAuthority (k : Kind) (s : List Char) : Path :=
  match s with
  | [] => if k = .other then .segments [] else .segments [""]
  | c :: rest => if k.isSlash c then pathOf k rest else pathOf k (c :: rest)

/-! ## Whole URLs -/

/-- The query set of a kind of scheme. -/
def Kind.querySet (k : Kind) : EscapeSet := if k = .other then Url.querySet else webQuerySet

/-- The query and the fragment. -/
def tail (k : Kind) (s : List Char) : Option String × Option String :=
  let fragmentOf : List Char → Option String
    | '#' :: rest => some (escape fragmentSet rest)
    | _ => none
  match s with
  | '?' :: rest =>
    let query := rest.takeWhile (· != '#')
    (some (escape k.querySet query), fragmentOf (rest.dropWhile (· != '#')))
  | s => (none, fragmentOf s)

/-- Puts a URL together from its scheme, its authority, and the text behind it. -/
def assemble (scheme : String) (authority : Option Authority) (path : List Char → Path)
    (s : List Char) : Url :=
  let (before, rest) := beforeQuery s
  let (query, fragment) := tail (Kind.of scheme) rest
  { scheme, authority, path := path before, query, fragment }

/-- The host of a file, which is missing for the local machine, and the text behind it. -/
def scanFileHost [Idna] (s : List Char) : Except ParseError (Option Host × List Char) := do
  let text := s.takeWhile fun c => !Kind.file.endsAuthority c
  let rest := s.dropWhile fun c => !Kind.file.endsAuthority c
  if isDrive text then return (none, s)
  if text.isEmpty then return (none, rest)
  let host ← readWebHost text
  return (if host = .name "localhost" then none else some host, rest)

/-- Reads the part of a file URL behind the scheme. -/
def readFile [Idna] (s : List Char) : Except ParseError Url := do
  let isSlash := Kind.file.isSlash
  match s with
  | a :: b :: rest =>
    if isSlash a ∧ isSlash b then
      let (host, rest) ← scanFileHost rest
      return assemble "file" (some ⟨none, host, none⟩) (pathBehindAuthority .file) rest
    else return assemble "file" (some ⟨none, none, none⟩) (pathBehindAuthority .file) s
  | s => return assemble "file" (some ⟨none, none, none⟩) (pathBehindAuthority .file) s

/-- Reads a URL. -/
def readChars [Idna] (s : List Char) : Except ParseError Url := do
  let some (scheme, rest) := scanScheme? (cleaned s)
    | .error .relative
  match Kind.of scheme with
  | .file => readFile rest
  | .web =>
    let (authority, rest) ← scanAuthority scheme (rest.dropWhile Kind.web.isSlash)
    return assemble scheme (some authority) (pathBehindAuthority .web) rest
  | .other =>
    match rest with
    | '/' :: '/' :: rest =>
      let (authority, rest) ← scanAuthority scheme rest
      return assemble scheme (some authority) (pathBehindAuthority .other) rest
    | '/' :: rest => return assemble scheme none (pathOf .other) rest
    | rest => return assemble scheme none (fun p => .opaque' (escape controls p)) rest

/-- Reads a URL. -/
def read [Idna] (s : String) : Except ParseError Url := readChars s.toList

/-- The URL with another query. -/
def withQuery (u : Url) (query : String) : Url :=
  let kept := query.toList.filter fun c => !(c ∈ ['\t', '\n', '\x0d'])
  { u with query := some (escape (Kind.of u.scheme).querySet kept) }

end LoadReplay.Url
