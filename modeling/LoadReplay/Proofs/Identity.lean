import LoadReplay.Proofs.Coverage
import LoadReplay.Proofs.Lives
import LoadReplay.Proofs.Plans
import LoadReplay.Tag.Filter

/-!
# Where samples come from

A sample carries the tags of its request; what the request says has precedence over what its group
says, and that over what the scenario says.  The label of the group is put in last, so that it
always stands.  The name of the scenario is put in first, so that a tag of a group or a request can
take its place, and nothing keeps a tag from having the key by which filters select outcomes.

`Scene.sample_identity` says what every sample of every run carries, and when it tells where it
comes from (`Scenario.Identifies`): exactly if no tag takes one of these two keys
(`Scenario.Clear`).
-/

namespace LoadReplay

/-! ## Tags -/

/-- A prepared request has the label of its group, and else its own value or the group's. -/
theorem PreparedRequest.Of.get?_tags {request : PreparedRequest} {g : Group} {spec : RequestSpec}
    (h : request.Of g spec) (key : String) :
    request.tags.get? key =
      if key = groupKey then some g.label else (spec.tags.get? key).or (g.tags.get? key) := by
  rw [h.tags, SortedMap.get?_insert, SortedMap.get?_merge]

/-- A scenario gives its name, and else its own tags. -/
theorem Scenario.get?_sampleTags (s : Scenario) (key : String) :
    s.sampleTags.get? key = if key = scenarioKey then some s.name else s.tags.get? key :=
  SortedMap.get?_insert _ _ _ _

namespace Scenario

variable {s : Scenario} {g : Group} {spec : RequestSpec} {request : PreparedRequest}

/-- The label of the group stands in every sample. -/
theorem get?_merge_group (h : request.Of g spec) :
    (s.sampleTags.merge request.tags).get? groupKey = some g.label := by
  rw [SortedMap.get?_merge, h.get?_tags, if_pos rfl]
  rfl

/-- For any other key the request's value stands, else the group's, else the scenario's. -/
theorem get?_merge_of_ne (h : request.Of g spec) {key : String} (hkey : key ≠ groupKey) :
    (s.sampleTags.merge request.tags).get? key =
      (spec.tags.get? key).or ((g.tags.get? key).or (s.sampleTags.get? key)) := by
  rw [SortedMap.get?_merge, h.get?_tags, if_neg hkey, Option.or_assoc]

/-- Whether the tags of a sample tell where it comes from: they name the scenario and the group,
they leave alone the key by which filters select outcomes, and otherwise the request has precedence
over its group, and the group over the scenario. -/
structure Identifies (s : Scenario) (g : Group) (spec : RequestSpec) (tags : TagSet) : Prop where
  scenario : tags.get? scenarioKey = some s.name
  group : tags.get? groupKey = some g.label
  outcome : tags.get? outcomeKey = none
  others : ∀ key, key ≠ scenarioKey → key ≠ groupKey → key ≠ outcomeKey →
    tags.get? key = (spec.tags.get? key).or ((g.tags.get? key).or (s.tags.get? key))

/-- Whether the given tags leave the reserved keys alone. -/
structure Clear (s : Scenario) (g : Group) (spec : RequestSpec) : Prop where
  /-- Neither the request nor the group names another scenario. -/
  scenario : ∀ name, (spec.tags.get? scenarioKey).or (g.tags.get? scenarioKey) = some name →
    name = s.name
  outcome : spec.tags.get? outcomeKey = none ∧ g.tags.get? outcomeKey = none ∧
    s.tags.get? outcomeKey = none

/-- The three reserved keys differ. -/
theorem scenarioKey_ne_groupKey : scenarioKey ≠ groupKey := by decide

theorem outcomeKey_ne_groupKey : outcomeKey ≠ groupKey := by decide

theorem outcomeKey_ne_scenarioKey : outcomeKey ≠ scenarioKey := by decide

/-- The scenario's name stands unless a request or its group takes its key. -/
theorem get?_merge_scenario (h : request.Of g spec) :
    (s.sampleTags.merge request.tags).get? scenarioKey =
      ((spec.tags.get? scenarioKey).or (g.tags.get? scenarioKey)).or (some s.name) := by
  rw [get?_merge_of_ne h scenarioKey_ne_groupKey, get?_sampleTags, if_pos rfl, Option.or_assoc]

/-- The reserved key stands in a sample exactly if somebody has put it there. -/
theorem get?_merge_outcome (h : request.Of g spec) :
    (s.sampleTags.merge request.tags).get? outcomeKey =
      (spec.tags.get? outcomeKey).or ((g.tags.get? outcomeKey).or (s.tags.get? outcomeKey)) := by
  rw [get?_merge_of_ne h outcomeKey_ne_groupKey, get?_sampleTags, if_neg outcomeKey_ne_scenarioKey]

/-- The tags of a sample tell where it comes from exactly if the given tags leave the reserved keys
alone. -/
theorem identifies_iff (h : request.Of g spec) :
    s.Identifies g spec (s.sampleTags.merge request.tags) ↔ s.Clear g spec := by
  have hscenario := get?_merge_scenario (s := s) h
  have houtcome := get?_merge_outcome (s := s) h
  constructor
  · intro hid
    refine ⟨fun name hname => ?_, ?_⟩
    · have hsame := hid.scenario
      rw [hscenario, hname] at hsame
      exact Option.some.inj hsame
    · have hnone := hid.outcome
      rw [houtcome, Option.or_eq_none_iff, Option.or_eq_none_iff] at hnone
      exact hnone
  · intro hclear
    refine ⟨?_, get?_merge_group h, ?_, fun key hs hg _ => ?_⟩
    · rw [hscenario]
      cases hname : (spec.tags.get? scenarioKey).or (g.tags.get? scenarioKey) with
      | none => rfl
      | some name =>
        rw [hclear.scenario name hname]
        rfl
    · obtain ⟨hspec, hg, hs⟩ := hclear.outcome
      rw [houtcome, hspec, hg, hs]
      rfl
    · rw [get?_merge_of_ne h hg, get?_sampleTags, if_neg hs]

end Scenario

/-! ## Requests -/

/-- The requests of a round are those of the groups. -/
theorem Post.IsRound.mem {p : Post} {requests : List PreparedRequest} (h : p.IsRound requests)
    {request : PreparedRequest} (hrequest : request ∈ requests) :
    ∃ g ∈ p.groups, request ∈ g.requests := by
  obtain ⟨orders, horders, rfl⟩ := h
  obtain ⟨order, horder, hmem⟩ := List.mem_flatten.1 hrequest
  obtain ⟨n, hn, rfl⟩ := List.getElem_of_mem horder
  have hlength := horders.length_eq
  have hg : (p.groups[n]).Orders orders[n] := horders.get (by omega) hn
  exact ⟨p.groups[n], List.getElem_mem _, hg.perm.mem_iff.1 hmem⟩

/-- A virtual user sends requests of its groups only. -/
theorem Post.Replays.mem {p : Post} {n : Nat} {requests : List PreparedRequest}
    (h : p.Replays n requests) {request : PreparedRequest} (hrequest : request ∈ requests) :
    ∃ g ∈ p.groups, request ∈ g.requests := by
  obtain ⟨rounds, current, rest, -, hrounds, hcurrent, rfl⟩ := h
  rcases List.mem_append.1 hrequest with hmem | hmem
  · obtain ⟨round, hround, hmem⟩ := List.mem_flatten.1 hmem
    exact (hrounds round hround).mem hmem
  · exact hcurrent.mem (List.mem_append_left _ hmem)

/-- The samples of a life are those of its requests, in order. -/
theorem Life.Books.request_of_sample {post : Post} {l : Life}
    {settled : List (PreparedRequest × Reply)} {opened : Life.Opened}
    (h : l.Books post settled opened) {k : Nat} {sample : Sample}
    (hk : l.samples[k]? = some sample) :
    ∃ request, l.requests[k]? = some request ∧
      sample.tags = post.scenario.sampleTags.merge request.tags := by
  obtain ⟨hlt, rfl⟩ := List.getElem?_eq_some_iff.1 hk
  have hlength := h.samples.length_eq
  have hmeasures : post.Measures settled[k] l.samples[k] := h.samples.get (by omega) hlt
  refine ⟨settled[k].1, ?_, hmeasures.tags⟩
  rw [h.requests, List.getElem?_append_left (by rw [List.length_map]; omega), List.getElem?_map,
    List.getElem?_eq_getElem (by omega)]
  rfl

namespace Scene

variable {d : Draft} {plan : Plan} {post : Post}

/-- **What every sample carries.**  In every run of a scenario of a definition that makes sense, the
n-th sample of a virtual user is that of its n-th request, a request of a group of the catalog.  It
carries the label of this group, and for any other key the value of the request if there is one,
else that of the group, else that of the scenario.  It names the scenario, too, and does without the
key by which filters select outcomes, exactly if no tag that was given takes one of these keys. -/
theorem sample_identity [Url.Idna] (hplan : Plan.of d = .ok plan) (hpost : post ∈ plan.posts)
    (w : Waiting) (gens : Nat → Random.Generator) (choices : List Choice) (i n : Nat)
    (sample : Sample)
    (hsample : (((start w gens post).run w choices).samplesBy i)[n]? = some sample) :
    post.scenario ∈ plan.definition.scenarios ∧
      ∃ g ∈ plan.definition.catalog.groups, ∃ spec ∈ g.requests, ∃ request : PreparedRequest,
        request.Of g spec ∧ (((start w gens post).run w choices).sentBy i)[n]? = some request ∧
        sample.tags.get? groupKey = some g.label ∧
        (∀ key, key ≠ groupKey → sample.tags.get? key =
          (spec.tags.get? key).or ((g.tags.get? key).or (post.scenario.sampleTags.get? key))) ∧
        (post.scenario.Identifies g spec sample.tags ↔ post.scenario.Clear g spec) := by
  refine ⟨Plan.scenario_mem hplan hpost, ?_⟩
  obtain ⟨l, hl, -⟩ := exists_life w gens post choices i
  obtain ⟨happenings, hlived⟩ := hl.lived
  have hcovers : l.Covers post := by
    rw [hlived]
    exact Life.covers_run post w i _ happenings
  -- From the sample to its request, and from there to the group that it was prepared from.
  obtain ⟨settled, opened, hbooks⟩ := hcovers.books
  rw [hl.samples] at hsample
  obtain ⟨request, hrequest, htags⟩ := hbooks.request_of_sample hsample
  obtain ⟨prepared, hprepared, hmem⟩ := hcovers.requests.mem (List.mem_of_getElem? hrequest)
  obtain ⟨g, hg, spec, hspec, hof⟩ := Plan.request_of hplan hpost hprepared hmem
  rw [hl.requests, htags]
  exact ⟨g, hg, spec, hspec, request, hof, hrequest, Scenario.get?_merge_group hof,
    fun key hkey => Scenario.get?_merge_of_ne hof hkey, Scenario.identifies_iff hof⟩

/-- A request with a tag for each of the reserved keys but the group's. -/
def masquerade : RequestSpec :=
  { path := "/a"
    query := none
    tags := .ofList [(scenarioKey, "other"), (outcomeKey, "maybe")] }

/-- A scenario `steady` that sends this request once. -/
def steadyDraft : Draft :=
  { Draft.new "run" with
    target := some "http://localhost:8080"
    catalog := ⟨[{ label := "g", tags := .empty, shuffle := false, requests := [masquerade] }]⟩
    scenarios := [.new "steady" (.fixedIterations 1 1)] }

/-- The request is sent, answered and recorded. -/
def steadyRun : List Choice :=
  List.replicate 8 (.controller .zero) ++ List.replicate 7 (.user 0 .zero) ++
    [.reply 0 (.status 200), .user 0 .zero]

/-- The samples of a scenario that has been run like this. -/
def steadySamples (post : Post) : List Sample :=
  ((start .polled (.seeded 0 "steady") post).run .polled steadyRun).samplesBy 0

open scoped Url.Idna in
/-- A request that takes both keys, and the sample of it. -/
theorem sample_identity_masquerade :
    ∃ plan post sample, Plan.of steadyDraft = .ok plan ∧ post ∈ plan.posts ∧
      post.scenario.name = "steady" ∧ (steadySamples post)[0]? = some sample ∧
      sample.tags.get? scenarioKey = some "other" ∧ sample.tags.get? outcomeKey = some "maybe" ∧
      ∃ g ∈ plan.definition.catalog.groups, ∃ spec ∈ g.requests,
        sample.tags.get? groupKey = some g.label ∧ ¬post.scenario.Clear g spec := by
  have hrun : ((Plan.of steadyDraft).toOption.any fun plan => plan.posts.any fun post =>
      (steadySamples post)[0]?.any fun sample => post.scenario.name = "steady" ∧
        sample.tags.get? scenarioKey = some "other" ∧
          sample.tags.get? outcomeKey = some "maybe") = true := by
    decide +kernel
  obtain ⟨plan, hplan, hposts⟩ := (Option.any_eq_true _ _).1 hrun
  obtain ⟨post, hpost, hsamples⟩ := List.any_eq_true.1 hposts
  obtain ⟨sample, hsample, htags⟩ := (Option.any_eq_true _ _).1 hsamples
  obtain ⟨hname, hscenario, houtcome⟩ := of_decide_eq_true htags
  have hok : Plan.of steadyDraft = .ok plan := eq_ok_of_toOption hplan
  obtain ⟨-, g, hg, spec, hspec, request, -, -, hgroup, -, hiff⟩ :=
    sample_identity hok hpost .polled (.seeded 0 "steady") steadyRun 0 0 sample hsample
  refine ⟨plan, post, sample, hok, hpost, hname, hsample, hscenario, houtcome, g, hg, spec, hspec,
    hgroup, fun hclear => ?_⟩
  have hnone := (hiff.2 hclear).outcome
  rw [houtcome] at hnone
  cases hnone

end Scene

end LoadReplay
