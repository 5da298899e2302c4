import LoadReplay.SortedMap
import LoadReplay.Store.Path

/-!
# Files

A directory with files in it, and what can go wrong with a path.
-/

namespace LoadReplay.Store

/-- Why a file cannot be opened. -/
inductive FileFault where
  | notFound
  | notADirectory
  | isADirectory
  deriving Repr, DecidableEq

/-- The files below a directory. -/
structure Files where
  /-- Where the directory is. -/
  root : String
  /-- The texts of the files, by the names on the way to them. -/
  entries : List (List String × String)

namespace Files

/-- Whether there is a directory at the end of some names. -/
def isDirectory (f : Files) (names : List String) : Bool :=
  names.isEmpty || f.entries.any fun e => names.length < e.1.length && names.isPrefixOf e.1

/-- The text of the file at the end of some names. -/
def text? (f : Files) (names : List String) : Option String := f.entries.lookup names

/-- Follows some names from a directory, which is given by the names on the way to it.  The last
name need not exist. -/
def follow (f : Files) (here : List String) : List String → Except FileFault (List String)
  | [] => .ok here
  | name :: rest =>
    if !f.isDirectory here then
      .error (if (f.text? here).isSome then .notADirectory else .notFound)
    else if name = ".." then
      if here.isEmpty then .error .notFound else f.follow here.dropLast rest
    else f.follow (here ++ [name]) rest

/-- The names on the way to the file that a path names. -/
def locate (f : Files) (path : String) : Except FileFault (List String) :=
  match Text.stripStart? f.root.toList path.toList with
  | none => .error .notFound
  | some rest => f.follow [] (pathNames (String.ofList rest))

/-- The text of a file. -/
def read (f : Files) (path : String) : Except FileFault String := do
  let names ← f.locate path
  match f.text? names with
  | some text => return text
  | none => .error (if f.isDirectory names then .isADirectory else .notFound)

/-- The files with a text added at the end of one of them, which is made if there is none. -/
def append (f : Files) (path text : String) : Except FileFault Files := do
  let names ← f.locate path
  if f.isDirectory names then .error .isADirectory
  if !f.isDirectory names.dropLast then .error .notFound
  match f.text? names with
  | some old =>
    let entries := f.entries.map fun e => if e.1 == names then (names, old ++ text) else e
    return { f with entries }
  | none => return { f with entries := f.entries ++ [(names, text)] }

end Files

end LoadReplay.Store
