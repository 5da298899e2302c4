import LoadReplay.Document.Tree

/-!
# Tables of TOML

The tables of a document while it is being read.  A table can be opened by its own header, by the
header of a table inside it, or by a dotted key, and these differ in what may be added to it later;
nothing is ever defined twice.
-/

namespace LoadReplay.Toml

open Document (Tree)

/-- How a table was opened. -/
inductive Origin where
  /-- By its own header. -/
  | header
  /-- By the header of a table inside it. -/
  | path
  /-- By a dotted key. -/
  | dotted
  deriving DecidableEq

/-- What stands under a key. -/
inductive Item where
  | value (t : Tree)
  | table (origin : Origin) (entries : List (String × Item))
  /-- Tables with the same header, last first. -/
  | tables (last : List (String × Item)) (earlier : List (List (String × Item)))

/-- The entries of a table. -/
abbrev Entries := List (String × Item)

/-- Changes what stands under a key, or puts something there if nothing does. -/
def alter (entries : Entries) (key : String) (f : Option Item → Option Item) : Option Entries :=
  match entries with
  | [] => (f none).map fun i => [(key, i)]
  | (k, i) :: rest =>
    if k = key then (f (some i)).map fun i => (k, i) :: rest
    else (alter rest key f).map fun rest => (k, i) :: rest

/-- Changes the table at the end of a path of headers.  Tables on the way are opened, and of tables
with the same header the last one counts. -/
def withinPath (entries : Entries) (path : List String) (f : Entries → Option Entries) :
    Option Entries :=
  match path with
  | [] => f entries
  | key :: path =>
    alter entries key fun
      | none => (withinPath [] path f).map (.table .path)
      | some (.value _) => none
      | some (.table origin es) => (withinPath es path f).map (.table origin)
      | some (.tables last earlier) =>
        (withinPath last path f).map fun last => .tables last earlier

/-- Changes the table at the end of a path of dotted keys.  Tables on the way are opened; one that
has a header of its own is not to be added to, and neither is a last one that was opened by a path
of headers. -/
def withinDotted (entries : Entries) (path : List String) (f : Entries → Option Entries) :
    Option Entries :=
  match path with
  | [] => f entries
  | key :: path =>
    alter entries key fun
      | none => (withinDotted [] path f).map (.table .dotted)
      | some (.value _) => none
      | some (.table origin es) =>
        if origin = .header ∨ (path.isEmpty ∧ origin = .path) then none
        else (withinDotted es path f).map (.table origin)
      | some (.tables last earlier) =>
        if path.isEmpty then none
        else (withinDotted last path f).map fun last => .tables last earlier

/-- Puts something under a key that is not used yet. -/
def define (entries : Entries) (key : String) (item : Item) : Option Entries :=
  alter entries key fun
    | none => some item
    | some _ => none

/-- Puts a value under a dotted key. -/
def assign (entries : Entries) (path : List String) (key : String) (t : Tree) : Option Entries :=
  withinDotted entries path fun es => define es key (.value t)

/-- Opens the table of a header.  A table that so far was only on the way to others may be opened.
-/
def openTable (entries : Entries) (path : List String) (key : String) : Option Entries :=
  withinPath entries path fun es =>
    alter es key fun
      | none => some (.table .header [])
      -- The entries that headers below this one have made are kept.
      | some (.table .path es) => some (.table .header es)
      | some _ => none

/-- Opens one more of the tables with the same header. -/
def openNext (entries : Entries) (path : List String) (key : String) : Option Entries :=
  withinPath entries path fun es =>
    alter es key fun
      | none => some (.tables [] [])
      | some (.tables last earlier) => some (.tables [] (last :: earlier))
      | some _ => none

mutual

/-- The document that an item is. -/
def Item.tree : Item → Tree
  | .value t => t
  | .table _ entries => .record (entriesTree entries)
  | .tables last earlier => .list ((tablesTree earlier) ++ [.record (entriesTree last)]) .loosely

/-- The entries of a record. -/
def entriesTree : List (String × Item) → List (Tree × Tree)
  | [] => []
  | (k, i) :: rest => (.scalar (.ofPlain (.text k)), i.tree) :: entriesTree rest

/-- The records of tables that stand last first. -/
def tablesTree : List (List (String × Item)) → List Tree
  | [] => []
  | es :: rest => tablesTree rest ++ [.record (entriesTree es)]

end

end LoadReplay.Toml
