import LoadReplay.Setup.Error
import LoadReplay.Url.Reader

/-!
# Workload catalogs

The requests that a run replays, in labelled groups.  Preparing a catalog resolves every request
against the target of the run; a prepared request carries its group, its URL and its tags.
-/

namespace LoadReplay

/-- The tag that names the group of a sample. -/
def groupKey : String := "group"

/-- A request as a catalog gives it. -/
structure RequestSpec where
  path : String
  query : Option String
  tags : TagSet

/-- Requests that are replayed together. -/
structure Group where
  label : String
  tags : TagSet
  /-- Whether the requests are replayed in random order. -/
  shuffle : Bool
  requests : List RequestSpec

/-- The groups of requests that a run can replay. -/
structure Catalog where
  groups : List Group

/-- A request with its URL. -/
structure PreparedRequest where
  group : String
  url : Url
  spec : RequestSpec
  /-- The tags of the group and of the request, and the label of the group. -/
  tags : TagSet

/-- A group whose requests have their URLs. -/
structure PreparedGroup where
  label : String
  shuffle : Bool
  requests : List PreparedRequest

/-- A catalog whose requests have their URLs. -/
structure PreparedCatalog where
  groups : List PreparedGroup

/-- A request written as a path with an optional query behind the first question mark. -/
def RequestSpec.read (s : String) : RequestSpec :=
  match Text.splitOnce '?' s.toList with
  | some (path, query) =>
    { path := String.ofList path, query := some (String.ofList query), tags := SortedMap.empty }
  | none => { path := s, query := none, tags := SortedMap.empty }

/-- The URL of a request below a base without slashes at its end. -/
def RequestSpec.resolve [Url.Idna] (spec : RequestSpec) (base : List Char) :
    Except RequestFault Url := do
  let path := spec.path.toList
  if path.isEmpty then .error .emptyPath
  if Text.holds "://".toList path then .error .absolute
  let below := if path.head? = some '/' then path else '/' :: path
  let url ← (Url.readChars (base ++ below)).mapError .url
  return match spec.query with
    | none => url
    | some query => url.withQuery query

namespace Catalog

/-- The catalog without groups. -/
def empty : Catalog := ⟨[]⟩

/-- Whether the labels of some groups are new and each group has requests; `seen` holds the labels
before them. -/
def checkGroups (seen : List String) : List Group → Except SetupError Unit
  | [] => .ok ()
  | g :: rest =>
    if g.label ∈ seen then .error (.duplicateGroup g.label)
    else if g.requests.isEmpty then .error (.emptyGroup g.label)
    else checkGroups (g.label :: seen) rest

/-- Whether the catalog makes sense: it has groups, their labels differ, and none is empty. -/
def validate (c : Catalog) : Except SetupError Unit :=
  if c.groups.isEmpty then .error .emptyCatalog else checkGroups [] c.groups

/-- The text of a target that request paths are put behind: without the slashes at its end. -/
def baseOf (target : Url) : List Char :=
  (target.text.toList.reverse.dropWhile (· == '/')).reverse

/-- A request of a group with its URL. -/
def prepareRequest [Url.Idna] (base : List Char) (g : Group) (spec : RequestSpec) :
    Except SetupError PreparedRequest := do
  let url ← (spec.resolve base).mapError (.invalidRequest g.label spec.path)
  return { group := g.label, url, spec, tags := (g.tags.merge spec.tags).insert groupKey g.label }

/-- A group with the URLs of its requests. -/
def prepareGroup [Url.Idna] (base : List Char) (g : Group) :
    Except SetupError PreparedGroup := do
  let requests ← g.requests.mapM (prepareRequest base g)
  return { label := g.label, shuffle := g.shuffle, requests }

/-- Resolves every request against the target. -/
def prepare [Url.Idna] (c : Catalog) (target : Url) : Except SetupError PreparedCatalog := do
  c.validate
  if !target.canBeBase then .error (.unsupportedTarget target.text)
  let groups ← c.groups.mapM (prepareGroup (baseOf target))
  return { groups }

end Catalog

namespace PreparedCatalog

/-- The first group with a label. -/
def group? (c : PreparedCatalog) (label : String) : Option PreparedGroup :=
  c.groups.find? fun g => g.label == label

/-- The groups that a scenario replays: the named ones in the order of the names, or all of them. -/
def select (c : PreparedCatalog) (scenario : String) :
    Option (List String) → Except SetupError (List PreparedGroup)
  | none => .ok c.groups
  | some names => names.mapM fun name =>
    match c.group? name with
    | some g => .ok g
    | none => .error (.unknownGroup scenario name)

end PreparedCatalog

end LoadReplay
