import LoadReplay.Text.Split

/-!
# Formats of documents

The format of a document is told by the extension of its file name.
-/

namespace LoadReplay.Document

/-- The formats that documents are written in. -/
inductive Format where
  | yaml
  | toml
  | json
  deriving Repr, DecidableEq

/-- The last name on a path.  Slashes and single dots at the end do not count, and there is none if
the path ends by going up. -/
def fileName? (path : List Char) : Option (List Char) :=
  let names := (Text.splitAll '/' path).filter fun p => !p.isEmpty && p != ['.']
  names.getLast?.filter fun name => name != "..".toList

/-- The text behind the last point of a name, unless the point begins the name. -/
def extension? (name : List Char) : Option (List Char) :=
  let extension := (name.reverse.takeWhile (· != '.')).reverse
  if extension.length + 1 < name.length then some extension else none

/-- The format of a file. -/
def Format.ofPath? (path : String) : Option Format :=
  match ((fileName? path.toList).bind extension?).map Text.lower with
  | none => none
  | some extension =>
    if extension = "yaml".toList ∨ extension = "yml".toList then some .yaml
    else if extension = "toml".toList then some .toml
    else if extension = "json".toList then some .json
    else none

end LoadReplay.Document
