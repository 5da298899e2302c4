import LoadReplay.Run.User
import LoadReplay.Setup.Definition

/-!
# Plans of runs

A definition whose requests have their URLs, and the groups of each scenario.  A run that has a plan
can be carried out.
-/

namespace LoadReplay

/-- A run that is ready to be carried out. -/
structure Plan where
  definition : Definition
  /-- The scenarios with their groups, in order. -/
  posts : List Post

namespace Plan

/-- A scenario with its groups. -/
def post (c : PreparedCatalog) (s : Scenario) : Except SetupError Post := do
  s.validate
  return { scenario := s, groups := ← c.select s.name s.groups }

/-- Prepares a run. -/
def of [Url.Idna] (d : Draft) : Except SetupError Plan := do
  let definition ← d.build
  let catalog ← definition.catalog.prepare definition.target
  let posts ← definition.scenarios.mapM (post catalog)
  return { definition, posts }

end Plan

end LoadReplay
