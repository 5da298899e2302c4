import LoadReplay.Text.Split

/-!
# Paths

Texts that name files.  Slashes separate the names of directories; a path that begins with a slash
begins at the root.
-/

namespace LoadReplay.Store

/-- Whether a path begins at the root. -/
def isAbsolute (path : String) : Bool := path.startsWith "/"

/-- A path as seen from a directory. -/
def joinPath (directory path : String) : String :=
  if isAbsolute path ∨ directory.isEmpty then path
  else if directory.endsWith "/" then directory ++ path
  else directory ++ "/" ++ path

/-- The names on a path, without those that stay where they are. -/
def pathNames (path : String) : List String :=
  ((Text.splitAll '/' path.toList).map String.ofList).filter fun name => name ≠ "" ∧ name ≠ "."

/-- A text without its last name and the slashes before it. -/
def dropLastName (path : List Char) : List Char :=
  (path.reverse.dropWhile (· != '/')).reverse

/-- A text without the slashes and the single dots at its end. -/
def dropVoid : Nat → List Char → List Char
  | 0, path => path
  | steps + 1, path =>
    match path.reverse with
    | '/' :: rest => if rest.isEmpty then path else dropVoid steps rest.reverse
    | '.' :: '/' :: rest => dropVoid steps ('/' :: rest).reverse
    | _ => path

/-- The directory that a path lies in. -/
def parentPath (path : String) : String :=
  let path := dropVoid path.length path.toList
  String.ofList (dropVoid path.length (dropLastName path))

end LoadReplay.Store
