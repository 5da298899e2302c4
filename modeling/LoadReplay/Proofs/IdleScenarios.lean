import LoadReplay.Proofs.Identity
import LoadReplay.Proofs.Validation
import Mathlib.Data.List.Induction

/-!
# Scenarios that send nothing

A catalog without groups is refused, and so is a group without requests.  A list of names that is
empty is not: a scenario with such a list gets no group, and its virtual users complete iterations
in which they send nothing.  This is the only way in which a scenario can be idle.  All others send
requests in each iteration and have a sample of each of them when the iteration is complete.

Main statement: `Draft.sends_requests_iff`.
-/

namespace LoadReplay

/-! ## Requests of a scenario -/

/-- A post has requests exactly if one of its groups has. -/
theorem Post.size_pos_iff {p : Post} : 0 < p.size ↔ ∃ g ∈ p.groups, g.requests ≠ [] := by
  rw [size, List.sum_pos_iff_exists_pos_nat]
  simp only [List.mem_map, exists_exists_and_eq_and, List.length_pos_iff]

/-- A group that was prepared has requests if it had some. -/
theorem PreparedGroup.Of.requests_ne_nil {prepared : PreparedGroup} {g : Group}
    (h : prepared.Of g) (hg : g.requests ≠ []) : prepared.requests ≠ [] := by
  intro hnil
  have hlength := h.requests.length_eq
  rw [hnil, List.length_nil] at hlength
  exact hg (List.eq_nil_of_length_eq_zero hlength)

namespace Catalog

variable {c : Catalog} {names : Option (List String)} {groups : List PreparedGroup}

/-- If the groups of a catalog have requests, so have those that a scenario replays. -/
theorem Replays.requests_ne_nil (h : c.Replays names groups)
    (hrequests : ∀ g ∈ c.groups, g.requests ≠ []) : ∀ p ∈ groups, p.requests ≠ [] := by
  intro p hp
  obtain ⟨n, hn, rfl⟩ := List.getElem_of_mem hp
  cases names with
  | none =>
    have hlength : n < c.groups.length := by
      rw [h.length_eq]
      exact hn
    have hof : PreparedGroup.Of groups[n] c.groups[n] := h.get hlength hn
    exact hof.requests_ne_nil (hrequests _ (List.getElem_mem hlength))
  | some list =>
    have hlength : n < list.length := by
      rw [h.length_eq]
      exact hn
    obtain ⟨g, hg, -, hof⟩ := h.get hlength hn
    exact hof.requests_ne_nil (hrequests g hg)

/-- A scenario has no groups exactly if it names none, in a list without names. -/
theorem Replays.eq_nil_iff (h : c.Replays names groups) (hgroups : c.groups ≠ []) :
    groups = [] ↔ names = some [] := by
  cases names with
  | none =>
    have hlength : c.groups.length = groups.length := h.length_eq
    have hpos := List.length_pos_of_ne_nil hgroups
    refine ⟨fun hnil => ?_, fun hnone => (by cases hnone)⟩
    rw [hnil, List.length_nil] at hlength
    omega
  | some list =>
    have hlength : list.length = groups.length := h.length_eq
    rw [← List.length_eq_zero_iff, ← hlength, List.length_eq_zero_iff, Option.some.injEq]

end Catalog

/-! ## Samples of iterations -/

namespace Life

/-- Nothing completes an iteration but a step after which the virtual user is between two of them,
and nothing takes a sample away. -/
theorem next_iterations (post : Post) (w : Waiting) (l : Life) (happening : User.Happening) :
    (l.next post w happening).user.isBetween = true ∨
      (l.next post w happening).user.iterations = l.user.iterations ∧
        l.samples.length ≤ (l.next post w happening).samples.length := by
  cases happening with
  | step v =>
    have ha := l.user.acts post w v
    rw [next_step]
    generalize l.user.step post w v = next at ha
    obtain ⟨u, e⟩ := next
    have hsamples : l.samples.length ≤ (l.samples ++ e.sample?.toList).length := by
      rw [List.length_append]
      exact Nat.le_add_right _ _
    cases ha with
    | completes => exact .inl rfl
    | _ => exact .inr ⟨rfl, hsamples⟩
  | reply r =>
    refine .inr ⟨?_, Nat.le_refl _⟩
    show (l.user.receive r).iterations = l.user.iterations
    unfold User.receive
    split <;> rfl
  | crash =>
    right
    show ((if l.user.isOver then l else { l with user := l.user.crash } : Life)).user.iterations =
        l.user.iterations ∧ l.samples.length ≤
      ((if l.user.isOver then l else { l with user := l.user.crash } : Life)).samples.length
    split <;> exact ⟨rfl, Nat.le_refl _⟩

/-- At every moment there is a sample of each request of each completed iteration. -/
theorem le_samples (post : Post) (w : Waiting) (index : Nat) (r : Random.Generator)
    (happenings : List User.Happening) :
    ((begin index r).run post w happenings).user.iterations * post.size ≤
      ((begin index r).run post w happenings).samples.length := by
  induction happenings using List.reverseRecOn with
  | nil => exact Nat.le_of_eq (Nat.zero_mul _)
  | append_singleton happenings happening ih =>
    have hcovers := covers_run post w index r (happenings ++ [happening])
    rw [run_append] at hcovers ⊢
    rcases next_iterations post w _ happening with hbetween | ⟨hsame, hmore⟩
    · exact Nat.le_of_eq (hcovers.complete hbetween).symm
    · show (next post w _ happening).user.iterations * _ ≤ (next post w _ happening).samples.length
      rw [hsame]
      exact Nat.le_trans ih hmore

/-- Without groups nothing is recorded. -/
theorem Covers.samples_eq_nil {post : Post} {l : Life} (h : l.Covers post)
    (hgroups : post.groups = []) : l.samples = [] := by
  have hrequests : l.requests = [] := by
    refine List.eq_nil_iff_forall_not_mem.2 fun request hmem => ?_
    obtain ⟨g, hg, -⟩ := h.requests.mem hmem
    rw [hgroups] at hg
    cases hg
  obtain ⟨settled, opened, hbooks⟩ := h.books
  have hsettled : settled = [] := by
    have hboth := hbooks.requests.symm.trans hrequests
    exact List.map_eq_nil_iff.1 (List.append_eq_nil_iff.1 hboth).1
  have hlength := hbooks.samples.length_eq
  rw [hsettled, List.length_nil] at hlength
  exact List.eq_nil_of_length_eq_zero hlength.symm

end Life

/-! ## Scenarios of a run -/

namespace Scene

/-- How many samples the virtual users of a scenario have, whatever happens: one of each request of
each completed iteration, and between two iterations no others. -/
theorem length_samplesBy (w : Waiting) (gens : Nat → Random.Generator) (post : Post)
    (choices : List Choice) {i : Nat} {t : Thread}
    (ht : ((start w gens post).run w choices).crew.threads[i]? = some t) :
    t.user.iterations * post.size ≤ (((start w gens post).run w choices).samplesBy i).length ∧
      (t.user.isBetween → (((start w gens post).run w choices).samplesBy i).length =
        t.user.iterations * post.size) := by
  obtain ⟨l, hl, -⟩ := exists_life w gens post choices i
  obtain ⟨happenings, hlived⟩ := hl.lived
  rw [hl.samples, hl.user t ht, hlived]
  exact ⟨Life.le_samples post w i _ happenings,
    (Life.covers_run post w i _ happenings).complete⟩

/-- Without groups no user ever records a sample. -/
theorem samplesBy_eq_nil (w : Waiting) (gens : Nat → Random.Generator) {post : Post}
    (hgroups : post.groups = []) (choices : List Choice) (i : Nat) :
    ((start w gens post).run w choices).samplesBy i = [] := by
  obtain ⟨l, hl, -⟩ := exists_life w gens post choices i
  obtain ⟨happenings, hlived⟩ := hl.lived
  rw [hl.samples, hlived]
  exact (Life.covers_run post w i _ happenings).samples_eq_nil hgroups

end Scene

namespace Draft

variable {d : Draft} {definition : Definition} {catalog : PreparedCatalog}

/-- **A scenario of a definition sends requests, unless it has a list of names without any.**  Every
scenario of a draft that builds gets its groups if the catalog can be prepared, and there is a
request in them exactly if the scenario does not have such a list.  Each completed iteration of a
virtual user has one sample of each of these requests, so a scenario with such a list completes
iterations, too, and has no sample at all. -/
theorem sends_requests_iff [Url.Idna] (hbuild : d.build = .ok definition)
    (hprepare : definition.catalog.prepare definition.target = .ok catalog) {s : Scenario}
    (hs : s ∈ definition.scenarios) :
    ∃ post : Post, Plan.post catalog s = .ok post ∧ post.scenario = s ∧
      ((∃ g ∈ post.groups, g.requests ≠ []) ↔ s.groups ≠ some []) ∧
      (0 < post.size ↔ s.groups ≠ some []) ∧
      ∀ (w : Waiting) (gens : Nat → Random.Generator) (choices : List Scene.Choice) (i : Nat)
          (t : Thread),
        ((Scene.start w gens post).run w choices).crew.threads[i]? = some t →
          let samples := ((Scene.start w gens post).run w choices).samplesBy i
          t.user.iterations * post.size ≤ samples.length ∧
            (t.user.isBetween → samples.length = t.user.iterations * post.size) ∧
            (s.groups = some [] → samples = []) := by
  have hsensible : d.Sensible := exists_build_iff.1 ⟨definition, hbuild⟩
  obtain ⟨⟨url, -, rfl⟩, -⟩ := build_eq_ok.1 hbuild
  obtain ⟨groups, hselect, hreplays⟩ :=
    Catalog.exists_select hprepare s.name (hsensible.known s hs)
  have hpost : Plan.post catalog s = .ok { scenario := s, groups } := by
    rw [Plan.post, hsensible.each s hs, hselect]
    rfl
  -- Selecting groups gives none exactly if the scenario lists none.
  have hnil : groups = [] ↔ s.groups = some [] := hreplays.eq_nil_iff hsensible.groups
  have hsends : (∃ g ∈ groups, g.requests ≠ []) ↔ s.groups ≠ some [] := by
    rw [ne_eq, ← hnil]
    constructor
    · rintro ⟨g, hg, -⟩ rfl
      cases hg
    · intro hne
      obtain ⟨g, hg⟩ := List.exists_mem_of_ne_nil groups hne
      exact ⟨g, hg, hreplays.requests_ne_nil hsensible.requests g hg⟩
  refine ⟨_, hpost, rfl, hsends, Post.size_pos_iff.trans hsends, fun w gens choices i t ht => ?_⟩
  obtain ⟨hmany, hcomplete⟩ := Scene.length_samplesBy w gens _ choices ht
  exact ⟨hmany, hcomplete, fun hempty =>
    Scene.samplesBy_eq_nil w gens (hnil.2 hempty) choices i⟩

/-- A scenario with a list without names. -/
def idleScenario : Scenario :=
  { Scenario.new "idle" (.fixedIterations 1 1) with groups := some [] }

/-- A run of this scenario only, with a catalog of one group. -/
def idleDraft : Draft :=
  { Draft.new "run" with
    target := some "http://localhost:8080"
    catalog := ⟨[{ label := "g", tags := .empty, shuffle := false, requests := [.read "/a"] }]⟩
    scenarios := [idleScenario] }

/-- The controller starts the virtual user, which completes an iteration. -/
def idleRun : List Scene.Choice :=
  List.replicate 7 (.controller .zero) ++ List.replicate 8 (.user 0 .zero)

/-- What has come of the scenario then. -/
def idleScene (post : Post) : Scene :=
  (Scene.start .polled (.seeded 0 "idle") post).run .polled idleRun

open scoped Url.Idna in
/-- A scenario whose list of groups is empty is built, and completes its iteration without a sample.
-/
theorem sends_requests_iff_idle :
    ∃ definition catalog post t, idleDraft.build = .ok definition ∧
      definition.catalog.prepare definition.target = .ok catalog ∧
      Plan.post catalog idleScenario = .ok post ∧ (¬∃ g ∈ post.groups, g.requests ≠ []) ∧
      (idleScene post).crew.threads[0]? = some t ∧
      t.user.iterations = 1 ∧
      (idleScene post).samplesBy 0 = [] := by
  -- One evaluation finds the definition, its catalog and the user; the rest of the proof opens it
  -- up.
  have hrun : (idleDraft.build.toOption.any fun definition =>
      (definition.catalog.prepare definition.target).toOption.any fun catalog =>
        (Plan.post catalog idleScenario).toOption.any fun post =>
          (idleScene post).crew.threads[0]?.any fun t =>
            t.user.iterations = 1) = true := by
    decide +kernel
  obtain ⟨definition, hbuild, hrun⟩ := (Option.any_eq_true _ _).1 hrun
  obtain ⟨catalog, hprepare, hrun⟩ := (Option.any_eq_true _ _).1 hrun
  obtain ⟨post, hpost, hrun⟩ := (Option.any_eq_true _ _).1 hrun
  obtain ⟨t, ht, hone⟩ := (Option.any_eq_true _ _).1 hrun
  have hbuild := eq_ok_of_toOption hbuild
  have hprepare := eq_ok_of_toOption hprepare
  have hpost := eq_ok_of_toOption hpost
  have hs : idleScenario ∈ definition.scenarios := by
    obtain ⟨⟨url, -, rfl⟩, -⟩ := build_eq_ok.1 hbuild
    exact List.mem_cons_self
  obtain ⟨post', hpost', -, hsends, -, hsamples⟩ := sends_requests_iff hbuild hprepare hs
  obtain rfl : post' = post := Except.ok.inj (hpost'.symm.trans hpost)
  obtain ⟨-, -, hnone⟩ := hsamples .polled (.seeded 0 "idle") idleRun 0 t ht
  exact ⟨definition, catalog, post', t, hbuild, hprepare, hpost, fun h => hsends.1 h rfl, ht,
    of_decide_eq_true hone, hnone rfl⟩

end Draft

end LoadReplay
