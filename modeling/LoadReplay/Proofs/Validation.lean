import LoadReplay.Proofs.Plans
import Mathlib.Data.List.Forall2

/-!
# Which drafts make sense

Building a draft goes through its scenarios and groups one after another, with the names seen so far
in hand, and stops at the first mistake.  `Draft.Sensible` says without any order what is asked of a
draft; building succeeds exactly for these drafts.

Groups are looked up twice: by label in the catalog when a draft is built, and by label in the
prepared catalog when a scenario gets its groups.  Preparing keeps the labels and their order, so
the second look-up finds whatever the first one has found.
-/

namespace LoadReplay

/-! ## Names that have not been seen -/

/-- Whether some names differ from each other and from those seen before. -/
def Fresh (seen names : List String) : Prop := names.Nodup ∧ ∀ name ∈ names, name ∉ seen

/-- No names are fresh whatever was seen. -/
theorem fresh_nil (seen : List String) : Fresh seen [] := ⟨List.nodup_nil, fun _ h => by cases h⟩

/-- Going on to the other names with the first one seen as well. -/
theorem fresh_cons {seen names : List String} {name : String} :
    Fresh seen (name :: names) ↔ name ∉ seen ∧ Fresh (name :: seen) names := by
  constructor
  · rintro ⟨hnodup, hunseen⟩
    obtain ⟨hname, hrest⟩ := List.nodup_cons.1 hnodup
    refine ⟨hunseen name List.mem_cons_self, hrest, fun other hother hmem => ?_⟩
    rcases List.mem_cons.1 hmem with rfl | hseen
    · exact hname hother
    · exact hunseen other (List.mem_cons_of_mem _ hother) hseen
  · rintro ⟨hname, hrest, hunseen⟩
    have hnot : name ∉ names := fun h => hunseen name h List.mem_cons_self
    refine ⟨List.nodup_cons.2 ⟨hnot, hrest⟩, fun other hother => ?_⟩
    rcases List.mem_cons.1 hother with rfl | hother
    · exact hname
    · exact fun hseen => hunseen other hother (List.mem_cons_of_mem _ hseen)

/-- Where nothing was seen, names are fresh if they differ. -/
theorem fresh_of_nothing_seen {names : List String} : Fresh [] names ↔ names.Nodup :=
  ⟨fun h => h.1, fun h => ⟨h, fun _ _ hseen => by cases hseen⟩⟩

/-! ## Scenarios -/

namespace Scenario

variable {s : Scenario}

/-- What makes sense as a scenario. -/
theorem validate_eq_ok : s.validate = .ok () ↔ s.checkExecutor = .ok () ∧
    s.minSleep ≤ s.maxSleep ∧ 0 < s.controlInterval.nanos ∧ s.statuses.1 ≤ s.statuses.2 := by
  have hpacing : ¬ s.maxSleep < s.minSleep ↔ s.minSleep ≤ s.maxSleep := Nat.not_lt
  have hinterval : ¬ s.controlInterval.isZero = true ↔ 0 < s.controlInterval.nanos := by
    rw [Span.isZero, beq_iff_eq, Nat.pos_iff_ne_zero]
  have hstatuses : ¬ s.statuses.2 < s.statuses.1 ↔ s.statuses.1 ≤ s.statuses.2 := Nat.not_lt
  rw [← hpacing, ← hinterval, ← hstatuses, validate, check_bind_eq_ok]
  refine and_congr_right fun _ => ?_
  by_cases hp : s.maxSleep < s.minSleep
  · refine iff_of_false (fun h => ?_) (fun h => h.1 hp)
    rw [if_pos hp] at h
    cases h
  by_cases hi : s.controlInterval.isZero = true
  · refine iff_of_false (fun h => ?_) (fun h => h.2.1 hi)
    rw [if_neg hp, if_pos hi] at h
    cases h
  by_cases hs : s.statuses.2 < s.statuses.1
  · refine iff_of_false (fun h => ?_) (fun h => h.2.2 hs)
    rw [if_neg hp, if_neg hi, if_pos hs] at h
    cases h
  · rw [if_neg hp, if_neg hi, if_neg hs]
    exact iff_of_true rfl ⟨hp, hi, hs⟩

end Scenario

/-! ## Drafts -/

namespace Catalog

/-- The groups pass if their labels are new and differ, and each has a request. -/
theorem checkGroups_eq_ok {seen : List String} {groups : List Group} :
    checkGroups seen groups = .ok () ↔
      Fresh seen (groups.map (·.label)) ∧ ∀ g ∈ groups, g.requests ≠ [] := by
  induction groups generalizing seen with
  | nil => exact ⟨fun _ => ⟨fresh_nil seen, fun _ h => by cases h⟩, fun _ => rfl⟩
  | cons g rest ih =>
    rw [List.map_cons, fresh_cons, List.forall_mem_cons, checkGroups]
    by_cases hseen : g.label ∈ seen
    · simp [hseen]
    · by_cases hempty : g.requests = []
      · simp [hseen, hempty]
      · simp only [hseen, List.isEmpty_iff, hempty, if_false]
        rw [ih]
        tauto

/-- A catalog passes if it has groups, which differ and have requests. -/
theorem validate_eq_ok {c : Catalog} :
    c.validate = .ok () ↔
      c.groups ≠ [] ∧ (c.groups.map (·.label)).Nodup ∧ ∀ g ∈ c.groups, g.requests ≠ [] := by
  rw [validate, ← fresh_of_nothing_seen, ← checkGroups_eq_ok]
  by_cases hempty : c.groups = []
  · simp [hempty]
  · simp [hempty]

end Catalog

namespace Draft

/-- Whether everything that is said of a run makes sense. -/
structure Sensible [Url.Idna] (d : Draft) : Prop where
  target : ∃ text url, d.target = some text ∧ Url.read text = .ok url ∧ url.canBeBase = true
  /-- There is something to run. -/
  scenarios : d.scenarios ≠ []
  names : (d.scenarios.map (·.name)).Nodup
  each : ∀ s ∈ d.scenarios, s.validate = .ok ()
  groups : d.catalog.groups ≠ []
  labels : (d.catalog.groups.map (·.label)).Nodup
  requests : ∀ g ∈ d.catalog.groups, g.requests ≠ []
  /-- Scenarios name no groups but those of the catalog. -/
  known : ∀ s ∈ d.scenarios, ∀ names, s.groups = some names →
    ∀ name ∈ names, name ∈ d.catalog.groups.map (·.label)

/-- A target is read if it is there, is a URL, and can be a base. -/
theorem readTarget_eq_ok [Url.Idna] {d : Draft} {url : Url} :
    d.readTarget = .ok url ↔
      ∃ text, d.target = some text ∧ Url.read text = .ok url ∧ url.canBeBase = true := by
  rw [readTarget]
  cases htarget : d.target with
  | none => simp
  | some text =>
    cases hread : Url.read text with
    | error e => simp [hread]
    | ok u =>
      by_cases hbase : u.canBeBase = true
      · simp only [hbase, if_true, Except.ok.injEq, Option.some.injEq, exists_eq_left', hread]
        constructor
        · rintro rfl
          exact ⟨rfl, hbase⟩
        · exact fun h => h.1
      · simp only [hbase, Option.some.injEq, exists_eq_left', hread, Except.ok.injEq]
        constructor
        · intro h
          cases h
        · rintro ⟨rfl, h⟩
          exact absurd h hbase

/-- The scenarios pass if their names are new and differ, and each passes its own check. -/
theorem checkScenarios_eq_ok {seen : List String} {scenarios : List Scenario} :
    checkScenarios seen scenarios = .ok () ↔
      Fresh seen (scenarios.map (·.name)) ∧ ∀ s ∈ scenarios, s.validate = .ok () := by
  induction scenarios generalizing seen with
  | nil => exact ⟨fun _ => ⟨fresh_nil seen, fun _ h => by cases h⟩, fun _ => rfl⟩
  | cons s rest ih =>
    rw [List.map_cons, fresh_cons, List.forall_mem_cons, checkScenarios]
    by_cases hseen : s.name ∈ seen
    · simp only [hseen, if_true, not_true_eq_false, false_and, iff_false]
      intro h
      cases h
    · rw [if_neg hseen]
      show (s.validate >>= fun _ => checkScenarios (s.name :: seen) rest) = .ok () ↔ _
      rw [check_bind_eq_ok, ih]
      tauto

/-- The names of groups pass if all are in the catalog. -/
theorem checkGroups_eq_ok {c : Catalog} {s : Scenario} :
    checkGroups c s = .ok () ↔ ∀ names, s.groups = some names →
      ∀ name ∈ names, name ∈ c.groups.map (·.label) := by
  have hknown (name : String) :
      (c.groups.all fun g => g.label != name) = false ↔ name ∈ c.groups.map (·.label) := by
    simp [List.all_eq_false]
  rw [checkGroups]
  cases hfind : (s.groups.getD []).find? fun name => c.groups.all fun g => g.label != name with
  | none =>
    refine ⟨fun _ names hnames name hname => ?_, fun _ => rfl⟩
    rw [hnames] at hfind
    exact (hknown name).1 (Bool.eq_false_iff.2 (List.find?_eq_none.1 hfind name hname))
  | some name =>
    refine ⟨fun h => (by cases h), fun h => ?_⟩
    have hmem := List.mem_of_find?_eq_some hfind
    have hall := List.find?_some hfind
    cases hgroups : s.groups with
    | none =>
      rw [hgroups] at hmem
      cases hmem
    | some names =>
      rw [hgroups] at hmem
      rw [(hknown name).2 (h names hgroups name hmem)] at hall
      cases hall

/-- What has been built is what was said, with the target read. -/
theorem build_eq_ok [Url.Idna] {d : Draft} {definition : Definition} :
    d.build = .ok definition ↔
      (∃ url, d.readTarget = .ok url ∧ { d with target := url } = definition) ∧
        d.scenarios ≠ [] ∧ checkScenarios [] d.scenarios = .ok () ∧
        d.catalog.validate = .ok () ∧ ∀ s ∈ d.scenarios, checkGroups d.catalog s = .ok () := by
  rw [build, bind_eq_ok]
  by_cases hnone : d.scenarios = []
  · simp only [hnone, List.isEmpty_nil, if_true, ne_eq, not_true_eq_false, false_and, and_false,
      iff_false]
    rintro ⟨url, -, h⟩
    cases h
  · have hchecks (url : Url) : (checkScenarios [] d.scenarios >>= fun _ =>
          d.catalog.validate >>= fun _ => d.scenarios.forM (checkGroups d.catalog) >>= fun _ =>
            pure { d with target := url }) = .ok definition ↔
        checkScenarios [] d.scenarios = .ok () ∧ d.catalog.validate = .ok () ∧
          (∀ s ∈ d.scenarios, checkGroups d.catalog s = .ok ()) ∧
            { d with target := url } = definition := by
      rw [check_bind_eq_ok, check_bind_eq_ok, check_bind_eq_ok, forM_eq_ok]
      exact and_congr_right fun _ => and_congr_right fun _ => and_congr_right fun _ =>
        ⟨Except.ok.inj, congrArg _⟩
    simp only [List.isEmpty_iff, hnone, if_false]
    constructor
    · rintro ⟨url, htarget, h⟩
      obtain ⟨hscenarios, hcatalog, hgroups, hdefinition⟩ := (hchecks url).1 h
      exact ⟨⟨url, htarget, hdefinition⟩, hnone, hscenarios, hcatalog, hgroups⟩
    · rintro ⟨⟨url, htarget, hdefinition⟩, -, hscenarios, hcatalog, hgroups⟩
      exact ⟨url, htarget, (hchecks url).2 ⟨hscenarios, hcatalog, hgroups, hdefinition⟩⟩

/-- **A draft can be built exactly if it is sensible.** -/
theorem exists_build_iff [Url.Idna] {d : Draft} :
    (∃ definition, d.build = .ok definition) ↔ d.Sensible := by
  simp only [build_eq_ok, readTarget_eq_ok, checkScenarios_eq_ok, fresh_of_nothing_seen,
    Catalog.validate_eq_ok, checkGroups_eq_ok]
  constructor
  · rintro ⟨_, ⟨url, ⟨text, htarget⟩, -⟩, hscenarios, ⟨hnames, heach⟩,
      ⟨hgroups, hlabels, hrequests⟩, hknown⟩
    exact ⟨⟨text, url, htarget⟩, hscenarios, hnames, heach, hgroups, hlabels, hrequests, hknown⟩
  · intro h
    obtain ⟨text, url, htarget⟩ := h.target
    exact ⟨_, ⟨url, ⟨text, htarget⟩, rfl⟩, h.scenarios, ⟨h.names, h.each⟩,
      ⟨h.groups, h.labels, h.requests⟩, h.known⟩

end Draft

/-! ## Groups of scenarios -/

/-- Whether a prepared group is a group of a catalog, its requests in the order in which they are
declared. -/
structure PreparedGroup.Of (prepared : PreparedGroup) (g : Group) : Prop where
  label : prepared.label = g.label
  shuffle : prepared.shuffle = g.shuffle
  requests : List.Forall₂ (fun spec request => PreparedRequest.Of request g spec)
    g.requests prepared.requests

namespace Catalog

variable {c : Catalog} {target : Url} {catalog : PreparedCatalog}

/-- Whether some prepared groups are what a scenario replays: all groups of the catalog, or, if it
has a list of names, the groups with these names in the order of the list. -/
def Replays (c : Catalog) : Option (List String) → List PreparedGroup → Prop
  | none, prepared => List.Forall₂ (fun g p => PreparedGroup.Of p g) c.groups prepared
  | some names, prepared =>
    List.Forall₂ (fun name p => ∃ g ∈ c.groups, g.label = name ∧ PreparedGroup.Of p g)
      names prepared

/-- Preparing a group keeps its label and its requests in order. -/
theorem preparedGroup_of [Url.Idna] {base : List Char} {g : Group} {prepared : PreparedGroup}
    (h : prepareGroup base g = .ok prepared) : prepared.Of g := by
  obtain ⟨requests, hrequests, h⟩ := bind_eq_ok.1 h
  cases h
  exact ⟨rfl, rfl, (forall₂_of_mapM hrequests).imp fun _ _ hf => of_prepareRequest hf⟩

/-- A catalog is prepared group by group. -/
theorem mapM_of_prepare [Url.Idna] (h : c.prepare target = .ok catalog) :
    c.groups.mapM (prepareGroup (baseOf target)) = .ok catalog.groups := by
  obtain ⟨-, -, h⟩ := bind_eq_ok.1 h
  split at h
  · cases h
  obtain ⟨groups, hgroups, h⟩ := bind_eq_ok.1 h
  cases h
  exact hgroups

/-- A group that is found by its label is the group of the catalog with this label. -/
theorem of_group? [Url.Idna] (h : c.prepare target = .ok catalog) {name : String}
    {prepared : PreparedGroup}
    (hfound : catalog.group? name = some prepared) :
    ∃ g ∈ c.groups, g.label = name ∧ prepared.Of g := by
  obtain ⟨g, hg, hf⟩ := mem_of_mapM (mapM_of_prepare h) (List.mem_of_find?_eq_some hfound)
  have hof := preparedGroup_of hf
  have hlabel : prepared.label = name := by simpa using List.find?_some hfound
  exact ⟨g, hg, hof.label.symm.trans hlabel, hof⟩

/-- Preparing keeps the labels and their order. -/
theorem labels_of_prepare [Url.Idna] (h : c.prepare target = .ok catalog) :
    catalog.groups.map (·.label) = c.groups.map (·.label) := by
  have hall := forall₂_of_mapM (mapM_of_prepare h)
  rw [← List.forall₂_eq_eq_eq, List.forall₂_map_left_iff, List.forall₂_map_right_iff]
  exact (hall.imp fun _ _ hf => (preparedGroup_of hf).label).flip

/-- A scenario that names only groups of the catalog gets its groups. -/
theorem exists_select [Url.Idna] (h : c.prepare target = .ok catalog) (scenario : String)
    {names : Option (List String)}
    (hnames : ∀ list, names = some list → ∀ name ∈ list, name ∈ c.groups.map (·.label)) :
    ∃ groups, catalog.select scenario names = .ok groups ∧ c.Replays names groups := by
  cases names with
  | none =>
    exact ⟨catalog.groups, rfl,
      (forall₂_of_mapM (mapM_of_prepare h)).imp fun _ _ hf => preparedGroup_of hf⟩
  | some list =>
    -- A label of the catalog is that of a prepared group, so each name finds one.
    have hfound : ∀ name ∈ list, ∃ p, catalog.group? name = some p := by
      intro name hname
      have hlabel := hnames list rfl name hname
      rw [← labels_of_prepare h] at hlabel
      obtain ⟨p, hp, rfl⟩ := List.mem_map.1 hlabel
      exact Option.isSome_iff_exists.1 (List.find?_isSome.2 ⟨p, hp, beq_self_eq_true _⟩)
    obtain ⟨groups, hgroups⟩ : ∃ groups, catalog.select scenario (some list) = .ok groups := by
      apply exists_mapM
      intro name hname
      obtain ⟨p, hp⟩ := hfound name hname
      exact ⟨p, by rw [hp]⟩
    refine ⟨groups, hgroups, (forall₂_of_mapM hgroups).imp fun name p hp => ?_⟩
    cases hgroup : catalog.group? name with
    | none =>
      rw [hgroup] at hp
      cases hp
    | some p' =>
      rw [hgroup] at hp
      cases hp
      exact of_group? h hgroup

end Catalog

namespace Draft

/-- **Building finds every mistake, and nothing else.**  A draft can be built exactly if it is
sensible.  If its catalog can be prepared as well, then every scenario gets its groups: those that
it names, in the order in which it names them and with repetitions, or all groups if it has no list
of names.  The requests of each group stand in the order in which they are declared. -/
theorem build_complete [Url.Idna] (d : Draft) :
    ((∃ definition, d.build = .ok definition) ↔ d.Sensible) ∧
      ∀ definition catalog, d.build = .ok definition →
        definition.catalog.prepare definition.target = .ok catalog →
        definition.scenarios = d.scenarios ∧
          ∀ s ∈ d.scenarios, ∃ groups, Plan.post catalog s = .ok { scenario := s, groups } ∧
            d.catalog.Replays s.groups groups := by
  refine ⟨exists_build_iff, fun definition catalog hbuild hprepare => ?_⟩
  have hsensible : d.Sensible := exists_build_iff.1 ⟨definition, hbuild⟩
  obtain ⟨⟨url, -, rfl⟩, -⟩ := build_eq_ok.1 hbuild
  refine ⟨rfl, fun s hs => ?_⟩
  obtain ⟨groups, hselect, hreplays⟩ :=
    Catalog.exists_select hprepare s.name (hsensible.known s hs)
  refine ⟨groups, ?_, hreplays⟩
  rw [Plan.post, hsensible.each s hs, hselect]
  rfl

/-- Two groups; one scenario replays both, the other one names them in another order, and one of
them twice. -/
def twoGroups : Draft :=
  { Draft.new "run" with
    target := some "http://localhost:8080"
    catalog := ⟨[
      { label := "a", tags := .empty, shuffle := true, requests := [.read "/1", .read "/2?x=y"] },
      { label := "b", tags := .empty, shuffle := false, requests := [.read "/3"] }]⟩
    scenarios := [.new "all" (.fixedIterations 1 1),
      { Scenario.new "some" (.fixedIterations 1 1) with groups := some ["b", "a", "b"] }] }

open scoped Url.Idna in
/-- Both scenarios of the example get their groups. -/
theorem build_complete_twoGroups :
    twoGroups.Sensible ∧ ∃ definition catalog, twoGroups.build = .ok definition ∧
      definition.catalog.prepare definition.target = .ok catalog ∧
      ∀ s ∈ twoGroups.scenarios, ∃ groups, Plan.post catalog s = .ok { scenario := s, groups } ∧
        twoGroups.catalog.Replays s.groups groups := by
  have hok : (twoGroups.build.toOption.any fun definition =>
      (definition.catalog.prepare definition.target).toOption.isSome) = true := by
    decide +kernel
  obtain ⟨definition, hbuild, hprepare⟩ := (Option.any_eq_true _ _).1 hok
  obtain ⟨catalog, hprepare⟩ := Option.isSome_iff_exists.1 hprepare
  have hbuild := eq_ok_of_toOption hbuild
  have hprepare := eq_ok_of_toOption hprepare
  obtain ⟨hiff, hposts⟩ := build_complete twoGroups
  exact ⟨hiff.1 ⟨definition, hbuild⟩, definition, catalog, hbuild, hprepare,
    (hposts definition catalog hbuild hprepare).2⟩

end Draft

end LoadReplay
