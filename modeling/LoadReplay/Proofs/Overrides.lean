import LoadReplay.Config.Basic
import LoadReplay.Proofs.Results

/-!
# Settings from variables

Variables replace the target of a configuration and the counts of its scenarios, one setting after
another.  There is no going back: when a count cannot be read, the target has been replaced, and
when an executor is unknown, so have the counts of the scenarios before it (`override_keeps_part`).
But nothing else is ever touched, and what the variables have done once they do not change any more.

Main statement: `override_outcome`.
-/

namespace LoadReplay

/-! ## Counts -/

section Counts

variable (lookup : String → Option String) (name : String)

/-- The count that a variable holds, if it is set and holds one. -/
def countOf : Option Nat :=
  (lookup name).bind fun value => Number.readCount64 (Text.trim value.toList)

/-- Whether a variable holds a count if it is set. -/
def IsCount : Prop := ∀ value, lookup name = some value → ∃ n, countOf lookup name = some n

/-- A variable is read as a count, or not at all if it is not set, or is refused for its text. -/
theorem readVariable_cases :
    (IsCount lookup name ∧ readVariable lookup name = .ok (countOf lookup name)) ∨
      ∃ value, lookup name = some value ∧ countOf lookup name = none ∧
        readVariable lookup name = .error (.invalidVariable name value) := by
  cases hset : lookup name with
  | none =>
    refine .inl ⟨fun value h => ?_, ?_⟩
    · cases hset.symm.trans h
    · rw [readVariable, countOf, hset]
      rfl
  | some value =>
    have hcount : countOf lookup name = Number.readCount64 (Text.trim value.toList) := by
      rw [countOf, hset]
      rfl
    cases hread : Number.readCount64 (Text.trim value.toList) with
    | none =>
      refine .inr ⟨value, rfl, hcount.trans hread, ?_⟩
      rw [readVariable, hset]
      simp only [hread]
    | some n =>
      refine .inl ⟨fun _ _ => ⟨n, hcount.trans hread⟩, ?_⟩
      rw [readVariable, hset, hcount, hread]
      simp only [hread]

end Counts

/-! ## Scenarios -/

/-- The only error of reading an executor is that it is unknown. -/
theorem ExecutorKind.eq_unknown_of_read {name : String} {e : SetupError}
    (h : ExecutorKind.read name = .error e) : e = .unknownExecutor (Text.trimmed name) := by
  rw [ExecutorKind.read] at h
  cases hlookup : names.lookup (Text.trimmed name) with
  | none =>
    simp only [hlookup] at h
    exact (Except.error.inj h).symm
  | some kind =>
    simp only [hlookup] at h
    cases h

namespace ScenarioConfig

/-- A scenario when its counts are replaced by those that are given: the number of users unless it
follows a ramp, and the iterations if they are fixed.  Nothing else changes. -/
structure Overridden (vus iterations : Option Nat) (s s' : ScenarioConfig) : Prop where
  others : s' = { s with vus := s'.vus, iterations := s'.iterations }
  counts : ∃ kind, ExecutorKind.read s.executor = .ok kind ∧
    s'.vus = (if kind = .rampingConcurrency then s.vus else vus.or s.vus) ∧
    s'.iterations = if kind = .fixedIterations then iterations.or s.iterations else s.iterations

variable {vus iterations : Option Nat} {s s' : ScenarioConfig}

/-- A scenario that gets its counts is overridden. -/
theorem withCounts_eq_ok (h : s.withCounts vus iterations = .ok s') :
    Overridden vus iterations s s' := by
  obtain ⟨kind, hkind, h⟩ := bind_eq_ok.1 h
  cases kind <;> cases h <;> exact ⟨rfl, _, hkind, rfl, rfl⟩

/-- A scenario does not get its counts only if its executor is unknown. -/
theorem withCounts_eq_error {e : SetupError} (h : s.withCounts vus iterations = .error e) :
    ExecutorKind.read s.executor = .error e := by
  rcases bind_eq_error.1 h with h | ⟨kind, -, h⟩
  · exact h
  · cases kind <;> cases h

/-- A scenario that has the counts already keeps them. -/
theorem withCounts_again (h : s.withCounts vus iterations = .ok s') :
    s'.withCounts vus iterations = .ok s' := by
  have hor : ∀ a b : Option Nat, a.or (a.or b) = a.or b := fun a b => by cases a <;> rfl
  obtain ⟨kind, hkind, h⟩ := bind_eq_ok.1 h
  cases kind <;> cases h <;> refine bind_eq_ok.2 ⟨_, hkind, ?_⟩ <;> simp only [hor] <;> rfl

end ScenarioConfig

section Scenarios

variable (vus iterations : Option Nat)

/-- Some scenarios get their counts up to the first one that has no known executor. -/
theorem withCounts_cases (scenarios : List ScenarioConfig) :
    (∃ new, withCounts vus iterations scenarios = (new, .ok ()) ∧
      List.Forall₂ (ScenarioConfig.Overridden vus iterations) scenarios new) ∨
    ∃ front s rest new, scenarios = front ++ s :: rest ∧
      List.Forall₂ (ScenarioConfig.Overridden vus iterations) front new ∧
      ExecutorKind.read s.executor = .error (.unknownExecutor (Text.trimmed s.executor)) ∧
      withCounts vus iterations scenarios =
        (new ++ s :: rest, .error (.unknownExecutor (Text.trimmed s.executor))) := by
  induction scenarios with
  | nil => exact .inl ⟨[], rfl, .nil⟩
  | cons s rest ih =>
    rw [withCounts]
    cases hs : s.withCounts vus iterations with
    | error e =>
      have hread := ScenarioConfig.withCounts_eq_error hs
      obtain rfl := ExecutorKind.eq_unknown_of_read hread
      exact .inr ⟨[], s, rest, [], rfl, .nil, hread, rfl⟩
    | ok s' =>
      have hstep := ScenarioConfig.withCounts_eq_ok hs
      rcases ih with ⟨new, hnew, hrest⟩ | ⟨front, t, tail, new, rfl, hfront, hread, hnew⟩
      · simp only [hnew]
        exact .inl ⟨s' :: new, rfl, .cons hstep hrest⟩
      · simp only [hnew]
        exact .inr ⟨s :: front, t, tail, s' :: new, rfl, .cons hstep hfront, hread, rfl⟩

/-- Scenarios that got their counts do not change by getting them again. -/
theorem withCounts_again (scenarios : List ScenarioConfig) :
    withCounts vus iterations (withCounts vus iterations scenarios).1 =
      withCounts vus iterations scenarios := by
  induction scenarios with
  | nil => rfl
  | cons s rest ih =>
    cases hs : s.withCounts vus iterations with
    | error e => simp only [withCounts, hs]
    | ok s' => simp only [withCounts, hs, ScenarioConfig.withCounts_again hs, ih]

end Scenarios

/-! ## Configurations -/

namespace Config

variable (c : Config) (lookup : String → Option String)

/-- A configuration with the target of the variable. -/
def withTarget : Config := { c with target := (lookup targetVariable).or c.target }

/-- Nor does a target. -/
theorem withTarget_again : (c.withTarget lookup).withTarget lookup = c.withTarget lookup := by
  have hor : ∀ a b : Option String, a.or (a.or b) = a.or b := fun a b => by cases a <;> rfl
  simp only [withTarget, hor]

/-- A configuration with the target of the variable, and with the counts of the variables up to the
first scenario that has no known executor. -/
def withSettings : Config :=
  { c.withTarget lookup with
    scenarios :=
      (withCounts (countOf lookup vusVariable) (countOf lookup iterationsVariable) c.scenarios).1 }

/-- Whatever the configuration is, it gets the target only, because one of the variables that stand
for counts holds none, or all settings as far as executors are known. -/
theorem override_cases :
    (∃ name value, (name = vusVariable ∨ name = iterationsVariable) ∧ lookup name = some value ∧
      countOf lookup name = none ∧ ∀ c : Config,
        c.override lookup = (c.withTarget lookup, .error (.invalidVariable name value))) ∨
    (IsCount lookup vusVariable ∧ IsCount lookup iterationsVariable ∧ ∀ c : Config,
      c.override lookup = (c.withSettings lookup,
        (withCounts (countOf lookup vusVariable) (countOf lookup iterationsVariable)
          c.scenarios).2)) := by
  rcases readVariable_cases lookup vusVariable with ⟨hvus, hv⟩ | ⟨value, hset, hnone, hv⟩
  · rcases readVariable_cases lookup iterationsVariable with
      ⟨hiterations, hi⟩ | ⟨value, hset, hnone, hi⟩
    · refine .inr ⟨hvus, hiterations, fun c => ?_⟩
      simp only [override, hv, hi]
      rfl
    · refine .inl ⟨iterationsVariable, value, .inr rfl, hset, hnone, fun c => ?_⟩
      simp only [override, hv, hi]
      rfl
  · refine .inl ⟨vusVariable, value, .inl rfl, hset, hnone, fun c => ?_⟩
    simp only [override, hv]
    rfl

/-- What the variables have done once they do not change any more. -/
theorem override_again : (c.override lookup).1.override lookup = c.override lookup := by
  rcases override_cases lookup with ⟨name, value, -, -, -, h⟩ | ⟨-, -, h⟩
  · rw [h, h, withTarget_again]
  · have hcounts := withCounts_again (countOf lookup vusVariable)
      (countOf lookup iterationsVariable) c.scenarios
    have hsettings : (c.withSettings lookup).withSettings lookup = c.withSettings lookup := by
      rw [withSettings]
      exact congrArg₂ (fun (c : Config) scenarios => { c with scenarios })
        (c.withTarget_again lookup) (congrArg Prod.fst hcounts)
    rw [h, h, hsettings]
    exact congrArg (Prod.mk _) (congrArg Prod.snd hcounts)

/-- **What variables do to a configuration.**  Whatever is looked up:

* the target is that of its variable if that is set, the scenarios may change, and nothing else
  does;
* a second time, the variables change nothing, and what comes of it is the same;
* all goes well exactly if the variables hold counts as far as they are set and all executors are
  known; then each scenario has the counts of the variables that are set and that its executor
  heeds;
* otherwise the scenarios are untouched because a variable holds no count, or both hold one, the
  first scenario whose executor is unknown and those behind it are untouched, and those before it
  have their counts. -/
theorem override_outcome :
    let new := (c.override lookup).1
    let result := (c.override lookup).2
    let Follows := ScenarioConfig.Overridden (countOf lookup vusVariable)
      (countOf lookup iterationsVariable)
    new = { c with target := (lookup targetVariable).or c.target, scenarios := new.scenarios } ∧
    new.override lookup = (new, result) ∧
    (result = .ok () ↔ IsCount lookup vusVariable ∧ IsCount lookup iterationsVariable ∧
      ∀ s ∈ c.scenarios, ∃ kind, ExecutorKind.read s.executor = .ok kind) ∧
    (result = .ok () → List.Forall₂ Follows c.scenarios new.scenarios) ∧
    ∀ e, result = .error e →
      (∃ name value, (name = vusVariable ∨ name = iterationsVariable) ∧
        lookup name = some value ∧ countOf lookup name = none ∧
        e = .invalidVariable name value ∧ new.scenarios = c.scenarios) ∨
      IsCount lookup vusVariable ∧ IsCount lookup iterationsVariable ∧
        ∃ front s rest front', c.scenarios = front ++ s :: rest ∧
          ExecutorKind.read s.executor = .error e ∧
          e = .unknownExecutor (Text.trimmed s.executor) ∧
          List.Forall₂ Follows front front' ∧ new.scenarios = front' ++ s :: rest := by
  intro new result Follows
  have hagain : new.override lookup = (new, result) := c.override_again lookup
  -- Either a count cannot be read, and then the scenarios are not reached, or both can be.
  rcases override_cases lookup with ⟨name, value, hname, hset, hnone, h⟩ | ⟨hvus, hiterations, h⟩
  · have hnew : new = c.withTarget lookup := congrArg Prod.fst (h c)
    have hresult : result = .error (.invalidVariable name value) := congrArg Prod.snd (h c)
    rw [hagain, hnew, hresult]
    refine ⟨rfl, rfl, ⟨fun hok => (by cases hok), fun ⟨hv, hi, _⟩ => ?_⟩,
      fun hok => (by cases hok), fun e he => ?_⟩
    -- If the override went well, this variable is a count after all.
    · have hcount : IsCount lookup name := by
        rcases hname with rfl | rfl
        · exact hv
        · exact hi
      obtain ⟨n, hn⟩ := hcount value hset
      rw [hnone] at hn
      cases hn
    · exact .inl ⟨name, value, hname, hset, hnone, (Except.error.inj he).symm, rfl⟩
  · have hnew : new = c.withSettings lookup := congrArg Prod.fst (h c)
    have hresult : result = (withCounts (countOf lookup vusVariable)
        (countOf lookup iterationsVariable) c.scenarios).2 := congrArg Prod.snd (h c)
    rw [hagain, hnew, hresult]
    refine ⟨rfl, rfl, ?_⟩
    rw [withSettings]
    have hcases := withCounts_cases (countOf lookup vusVariable)
      (countOf lookup iterationsVariable) c.scenarios
    -- The counts reach all scenarios, or those in front of the first unknown executor.
    obtain ⟨after, hafter, hall⟩ | ⟨front, s, rest, after, hsplit, hfront, hread, hafter⟩ := hcases
    · have hknown : ∀ s ∈ c.scenarios, ∃ kind, ExecutorKind.read s.executor = .ok kind :=
        ((List.forall₂_and_left _ _).1
          (hall.imp fun _ _ h => ⟨h.counts.imp fun _ hk => hk.1, h⟩)).1
      rw [hafter]
      exact ⟨⟨fun _ => ⟨hvus, hiterations, hknown⟩, fun _ => rfl⟩, fun _ => hall,
        fun e he => (by cases he)⟩
    · rw [hafter]
      refine ⟨⟨fun hok => (by cases hok), fun ⟨_, _, hknown⟩ => ?_⟩, fun hok => (by cases hok),
        fun e he => ?_⟩
      · obtain ⟨kind, hkind⟩ := hknown s (by rw [hsplit]; simp)
        rw [hread] at hkind
        cases hkind
      · obtain rfl := Except.error.inj he
        exact .inr ⟨hvus, hiterations, front, s, rest, after, hsplit, hread, rfl, hfront, rfl⟩

/-! ## An executor that nobody knows -/

/-- A scenario of two users and ten iterations. -/
def nightlyScenario (name executor : String) : ScenarioConfig :=
  { name, executor
    vus := some 2
    iterations := some 10
    duration := none
    startVus := none
    stages := []
    ramp := none
    tags := SortedMap.empty
    startTime := none
    groups := none
    minSleep := none
    maxSleep := none
    startJitter := none
    iterationPause := none
    expectedStatuses := none
    controlInterval := none }

/-- A configuration whose second scenario names no executor. -/
def nightly : Config :=
  { name := "nightly"
    target := some "http://localhost:8080"
    catalog := "catalog.yaml"
    seed := none
    checkpointInterval := none
    summaryPath := none
    scenarios := [nightlyScenario "steady" "fixed-iterations", nightlyScenario "odd" "fixed"]
    thresholds := [] }

/-- Variables for another target and for five users. -/
def staging : String → Option String := fun name =>
  [(targetVariable, "http://staging:8080"), (vusVariable, "5")].lookup name

/-- The unknown executor is an error, but the target and the users of the first scenario have been
replaced. -/
theorem override_keeps_part :
    (nightly.override staging).2 = .error (.unknownExecutor "fixed") ∧
      (nightly.override staging).1.target = some "http://staging:8080" ∧
      (nightly.override staging).1.scenarios.map (·.vus) = [some 5, some 2] ∧
      (nightly.override staging).1 ≠ nightly := by
  have htarget : (nightly.override staging).1.target = some "http://staging:8080" := by
    decide +kernel
  refine ⟨by decide +kernel, htarget, by decide +kernel, fun h => ?_⟩
  rw [h] at htarget
  exact absurd htarget (by decide)

end Config

end LoadReplay
