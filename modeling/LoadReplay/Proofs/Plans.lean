import LoadReplay.Proofs.Results
import LoadReplay.Run.Plan

/-!
# What plans are made of

The scenarios of a plan are those of its definition, and their groups are those of its catalog with
the URLs of their requests: every prepared request comes from a request of a group
(`PreparedRequest.Of`).
-/

namespace LoadReplay

/-! ## Prepared requests -/

/-- Whether a prepared request comes from a request of a group. -/
structure PreparedRequest.Of (request : PreparedRequest) (g : Group) (spec : RequestSpec) :
    Prop where
  label : request.group = g.label
  declared : request.spec = spec
  tags : request.tags = (g.tags.merge spec.tags).insert groupKey g.label

namespace Catalog

/-- A request that was prepared is one of its group. -/
theorem of_prepareRequest [Url.Idna] {base : List Char} {g : Group} {spec : RequestSpec}
    {request : PreparedRequest} (h : prepareRequest base g spec = .ok request) :
    request.Of g spec := by
  obtain ⟨url, -, h⟩ := bind_eq_ok.1 h
  cases h
  exact ⟨rfl, rfl, rfl⟩

/-- Every request of a prepared group was declared in it. -/
theorem of_prepareGroup [Url.Idna] {base : List Char} {g : Group} {prepared : PreparedGroup}
    (h : prepareGroup base g = .ok prepared) {request : PreparedRequest}
    (hrequest : request ∈ prepared.requests) : ∃ spec ∈ g.requests, request.Of g spec := by
  obtain ⟨requests, hrequests, h⟩ := bind_eq_ok.1 h
  cases h
  obtain ⟨spec, hspec, hf⟩ := mem_of_mapM hrequests hrequest
  exact ⟨spec, hspec, of_prepareRequest hf⟩

/-- Every request of a prepared catalog was declared in one of its groups. -/
theorem of_prepare [Url.Idna] {c : Catalog} {target : Url} {catalog : PreparedCatalog}
    (h : c.prepare target = .ok catalog) {prepared : PreparedGroup}
    (hprepared : prepared ∈ catalog.groups) {request : PreparedRequest}
    (hrequest : request ∈ prepared.requests) :
    ∃ g ∈ c.groups, ∃ spec ∈ g.requests, request.Of g spec := by
  obtain ⟨-, -, h⟩ := bind_eq_ok.1 h
  split at h
  · cases h
  obtain ⟨groups, hgroups, h⟩ := bind_eq_ok.1 h
  cases h
  obtain ⟨g, hg, hf⟩ := mem_of_mapM hgroups hprepared
  exact ⟨g, hg, of_prepareGroup hf hrequest⟩

end Catalog

/-- The groups that a scenario replays are groups of the catalog. -/
theorem PreparedCatalog.mem_of_select {c : PreparedCatalog} {scenario : String}
    {names : Option (List String)} {groups : List PreparedGroup}
    (h : c.select scenario names = .ok groups) {g : PreparedGroup} (hg : g ∈ groups) :
    g ∈ c.groups := by
  cases names with
  | none =>
    cases h
    exact hg
  | some names =>
    obtain ⟨name, -, hf⟩ := mem_of_mapM h hg
    cases hgroup : c.group? name with
    | none =>
      rw [hgroup] at hf
      cases hf
    | some g' =>
      rw [hgroup] at hf
      cases hf
      exact List.mem_of_find?_eq_some hgroup

/-! ## Plans -/

namespace Plan

variable {d : Draft} {plan : Plan} {p : Post}

/-- A scenario of a plan is one of its definition. -/
theorem scenario_mem [Url.Idna] (h : Plan.of d = .ok plan) (hp : p ∈ plan.posts) :
    p.scenario ∈ plan.definition.scenarios := by
  obtain ⟨definition, -, h⟩ := bind_eq_ok.1 h
  obtain ⟨catalog, -, h⟩ := bind_eq_ok.1 h
  obtain ⟨posts, hposts, h⟩ := bind_eq_ok.1 h
  cases h
  obtain ⟨s, hs, hf⟩ := mem_of_mapM hposts hp
  obtain ⟨-, -, hf⟩ := bind_eq_ok.1 hf
  obtain ⟨groups, -, hf⟩ := bind_eq_ok.1 hf
  cases hf
  exact hs

/-- A request of a plan is one of its catalog. -/
theorem request_of [Url.Idna] (h : Plan.of d = .ok plan) (hp : p ∈ plan.posts) {g : PreparedGroup}
    (hg : g ∈ p.groups) {request : PreparedRequest} (hrequest : request ∈ g.requests) :
    ∃ g ∈ plan.definition.catalog.groups, ∃ spec ∈ g.requests, request.Of g spec := by
  obtain ⟨definition, -, h⟩ := bind_eq_ok.1 h
  obtain ⟨catalog, hcatalog, h⟩ := bind_eq_ok.1 h
  obtain ⟨posts, hposts, h⟩ := bind_eq_ok.1 h
  cases h
  obtain ⟨s, -, hf⟩ := mem_of_mapM hposts hp
  obtain ⟨-, -, hf⟩ := bind_eq_ok.1 hf
  obtain ⟨groups, hgroups, hf⟩ := bind_eq_ok.1 hf
  cases hf
  exact Catalog.of_prepare hcatalog (PreparedCatalog.mem_of_select hgroups hg) hrequest

end Plan

end LoadReplay
