import LoadReplay.Proofs.Statistics
import LoadReplay.Threshold.Rule

/-!
# Verdicts against a flat log

What the rules of a run say is a function of the samples and of nothing else: `Rule.Judged` states
for one rule what its verdict says of a plain list of samples, and `Recorded.verdict_faithful` that
the verdicts of all rules say it, in the order of the rules, whatever the order in which the samples
came.  What a verdict observes is what its statistic says of the samples (`Statistic.Says`).
-/

namespace LoadReplay

/-! ## One rule -/

open LoadReplay.Metric

namespace Condition

variable {c : Condition} {observed : Option Float}

/-- Nothing is judged exactly if nothing was observed. -/
theorem judge_eq_inconclusive : c.judge observed = .inconclusive ↔ observed = none := by
  cases observed with
  | none => simp [judge]
  | some x => by_cases h : c.comparator.holds x c.bound = true <;> simp [judge, h]

/-- A condition passes exactly if something was observed that it holds of. -/
theorem judge_eq_pass :
    c.judge observed = .pass ↔ ∃ x ∈ observed, c.comparator.holds x c.bound = true := by
  cases observed with
  | none => simp [judge]
  | some x => simp [judge]

end Condition

/-- What the verdict on a rule says of a log of samples, with percentiles placed by exact arithmetic
on ranks. -/
structure Rule.Judged (round : Rat → Float) (rule : Rule) (log : List Sample)
    (verdict : RuleVerdict) : Prop where
  of_rule : verdict.rule = rule
  samples : verdict.samples = (rule.filter.wanted log).length
  inconclusive : verdict.status = .inconclusive ↔ rule.filter.wanted log = []
  unobserved : verdict.observed = none ↔ rule.filter.wanted log = []
  observed : ∀ x ∈ verdict.observed,
    rule.condition.statistic.Says round (rule.filter.wanted log) x
  pass : verdict.status = .pass ↔
    ∃ x ∈ verdict.observed, rule.condition.comparator.holds x rule.condition.bound = true

section Judging

variable {ranking : Nat → Float → Place Float} {log log' : List Sample} {r r' : Recorder}

/-- A rule is judged by the samples that it wants. -/
theorem Metric.Recorded.judged (h : Recorded log r) (round : Rat → Float) (rule : Rule) :
    rule.Judged round log (rule.evaluateBy (exactPlace round) r) := by
  have hm : (r.select rule.filter).Matches rule.filter log :=
    h.represents.selection_matches rule.filter
  have hobserved : (rule.evaluateBy (exactPlace round) r).observed =
      if (r.select rule.filter).isEmpty then none
      else rule.condition.statistic.computeBy (exactPlace round) (r.select rule.filter) := rfl
  -- Nothing is observed only where nothing is selected: every statistic has a value otherwise.
  have hsome (hwanted : rule.filter.wanted log ≠ []) :
      ∃ x, (rule.evaluateBy (exactPlace round) r).observed = some x ∧
        rule.condition.statistic.Says round (rule.filter.wanted log) x := by
    rw [hobserved, if_neg (mt hm.isEmpty_iff.1 hwanted)]
    exact hm.exists_computeBy hwanted round rule.condition.statistic
  have hnone (hempty : rule.filter.wanted log = []) :
      (rule.evaluateBy (exactPlace round) r).observed = none := by
    rw [hobserved, if_pos (hm.isEmpty_iff.2 hempty)]
  have hunobserved : (rule.evaluateBy (exactPlace round) r).observed = none ↔
      rule.filter.wanted log = [] := by
    refine ⟨fun h => ?_, hnone⟩
    by_contra hwanted
    obtain ⟨x, hx, -⟩ := hsome hwanted
    cases h.symm.trans hx
  constructor
  · rfl
  · exact hm.count
  · exact Condition.judge_eq_inconclusive.trans hunobserved
  · exact hunobserved
  · intro x hx
    have hwanted : rule.filter.wanted log ≠ [] := fun hempty => by
      cases (hnone hempty).symm.trans hx
    obtain ⟨y, hy, hsays⟩ := hsome hwanted
    rwa [Option.some.inj (hx.symm.trans hy)]
  · exact Condition.judge_eq_pass

/-- The order of the samples does not matter. -/
theorem Metric.Recorded.evaluateBy_eq (h : Recorded log r) (h' : Recorded log' r')
    (hp : log.Perm log') (rule : Rule) :
    rule.evaluateBy ranking r = rule.evaluateBy ranking r' := by
  have hm : (r.select rule.filter).Matches rule.filter log :=
    h.represents.selection_matches rule.filter
  have hm' : (r'.select rule.filter).Matches rule.filter log' :=
    h'.represents.selection_matches rule.filter
  have hwanted : (rule.filter.wanted log).Perm (rule.filter.wanted log') := hp.filter _
  have hcount : (r.select rule.filter).count = (r'.select rule.filter).count := by
    rw [hm.count, hm'.count, hwanted.length_eq]
  have hcompute := hm.computeBy_eq hm' hwanted ranking rule.condition.statistic
  rw [Rule.evaluateBy, Rule.evaluateBy, Selection.isEmpty, Selection.isEmpty, hcount, hcompute]

end Judging

/-! ## All rules -/

namespace Overall

variable {statuses statuses' : List RuleStatus}

/-- A run fails if a rule does. -/
theorem ofStatuses_eq_failed : ofStatuses statuses = .failed ↔ .fail ∈ statuses := by
  unfold ofStatuses
  split_ifs with hfail hinconclusive <;> simp [hfail]

/-- It is inconclusive if no rule fails and one is inconclusive. -/
theorem ofStatuses_eq_inconclusive :
    ofStatuses statuses = .inconclusive ↔ .fail ∉ statuses ∧ .inconclusive ∈ statuses := by
  unfold ofStatuses
  split_ifs with hfail hinconclusive <;> simp [*]

/-- It passes if all rules do. -/
theorem ofStatuses_eq_passed : ofStatuses statuses = .passed ↔ ∀ s ∈ statuses, s = .pass := by
  unfold ofStatuses
  constructor
  · intro h s hs
    split_ifs at h with hfail hinconclusive
    cases s with
    | pass => rfl
    | fail => exact absurd hs hfail
    | inconclusive => exact absurd hs hinconclusive
  · intro h
    have hfail : .fail ∉ statuses := fun hs => (by cases h _ hs)
    have hinconclusive : .inconclusive ∉ statuses := fun hs => (by cases h _ hs)
    rw [if_neg hfail, if_neg hinconclusive]

/-- The order of the statuses does not matter. -/
theorem ofStatuses_perm (hp : statuses.Perm statuses') :
    ofStatuses statuses = ofStatuses statuses' := by
  unfold ofStatuses
  simp only [hp.mem_iff]

end Overall

/-- What the verdict on a run says of the verdicts on its rules. -/
structure Verdict.Sums (v : Verdict) : Prop where
  failed : v.overall = .failed ↔ ∃ verdict ∈ v.rules, verdict.status = .fail
  inconclusive : v.overall = .inconclusive ↔ (∀ verdict ∈ v.rules, verdict.status ≠ .fail) ∧
    ∃ verdict ∈ v.rules, verdict.status = .inconclusive
  passed : v.overall = .passed ↔ ∀ verdict ∈ v.rules, verdict.status = .pass

/-- The verdict on a run sums up those on its rules. -/
theorem Verdict.sums_ofBy (ranking : Nat → Float → Place Float) (rules : List Rule)
    (r : Recorder) : (ofBy ranking rules r).Sums := by
  have hoverall : (ofBy ranking rules r).overall =
      .ofStatuses ((ofBy ranking rules r).rules.map (·.status)) := rfl
  constructor
  · rw [hoverall, Overall.ofStatuses_eq_failed, List.mem_map]
  · rw [hoverall, Overall.ofStatuses_eq_inconclusive, List.mem_map, List.mem_map]
    simp only [not_exists, not_and, ne_eq]
  · rw [hoverall, Overall.ofStatuses_eq_passed, List.forall_mem_map]

/-- **The verdict on a run is a summary of its samples that depends on no order.**  There is one
verdict for each rule, in the order of the rules, and with percentiles placed by exact arithmetic on
ranks it is inconclusive exactly if no sample is wanted, which is exactly if nothing is observed,
and otherwise a pass exactly if the observed figure compares with the bound as the rule says.  What
is observed is what the statistic says of the wanted samples.  The run fails if a rule fails, and
else is inconclusive if a rule is.  Another order of the samples changes nothing, and another order
of the rules only the order of their verdicts, however percentiles are placed. -/
theorem Metric.Recorded.verdict_faithful {log log' : List Sample} {r r' : Recorder}
    (h : Recorded log r) (h' : Recorded log' r') (hp : log.Perm log') {rules rules' : List Rule}
    (hrules : rules.Perm rules') (round : Rat → Float) :
    List.Forall₂ (fun rule verdict => rule.Judged round log verdict) rules
        (Verdict.ofBy (exactPlace round) rules r).rules ∧
      ∀ ranking : Nat → Float → Place Float,
        let v := Verdict.ofBy ranking rules r
        let v' := Verdict.ofBy ranking rules' r
        v.Sums ∧ Verdict.ofBy ranking rules r' = v ∧ v.rules.Perm v'.rules ∧
          v.overall = v'.overall := by
  constructor
  · show List.Forall₂ _ rules (rules.map fun rule => rule.evaluateBy (exactPlace round) r)
    rw [List.forall₂_map_right_iff, List.forall₂_same]
    intro rule _
    exact h.judged round rule
  · intro ranking v v'
    have hsame : ∀ rule : Rule, rule.evaluateBy ranking r' = rule.evaluateBy ranking r :=
      fun rule => h'.evaluateBy_eq h hp.symm rule
    have hverdicts : v.rules.Perm v'.rules := hrules.map _
    refine ⟨Verdict.sums_ofBy _ _ _, ?_, hverdicts, Overall.ofStatuses_perm (hverdicts.map _)⟩
    simp only [v, Verdict.ofBy, hsame]

/-- Two samples in either order, a percentile of one of them, and a rule that wants neither. -/
theorem verdict_faithful_endpoints :
    let tags (v : String) : TagSet := SortedMap.empty.insert "endpoint" v
    let a : Sample := ⟨tags "a", .zero, .millis 2, .success, some 200⟩
    let b : Sample := ⟨tags "b", .millis 1, .millis 3, .failure, none⟩
    let r := (Recorder.empty.record a).record b
    let r' := (Recorder.empty.record b).record a
    let slow : Rule := ⟨⟨[⟨"endpoint", "a"⟩]⟩, ⟨.percentile 95.0, .lt, 15000.0⟩, none⟩
    let idle : Rule := ⟨⟨[⟨"endpoint", "c"⟩]⟩, ⟨.failureRate, .le, 0.5⟩, none⟩
    let round (q : Rat) : Float := Number.ofCount q.num.toNat / Number.ofCount q.den
    let evaluate (rule : Rule) : RuleVerdict := rule.evaluateBy (exactPlace round) r
    let v := Verdict.ofBy (exactPlace round) [slow, idle] r
    Recorded [a, b] r ∧ Recorded [b, a] r' ∧ [a, b].Perm [b, a] ∧ [slow, idle].Perm [idle, slow] ∧
      v.rules = [evaluate slow, evaluate idle] ∧ (evaluate slow).samples = 1 ∧
      (∃ x ∈ (evaluate slow).observed,
        (Statistic.percentile 95.0).Says round (slow.filter.wanted [a, b]) x) ∧
      (evaluate slow).status ≠ .inconclusive ∧ (evaluate idle).status = .inconclusive ∧
      v.overall ≠ .passed ∧ Verdict.ofBy (exactPlace round) [slow, idle] r' = v := by
  intro tags a b r r' slow idle round evaluate v
  have h : Recorded [a, b] r := (Recorded.empty.record a).record b
  have h' : Recorded [b, a] r' := (Recorded.empty.record b).record a
  have hp : [a, b].Perm [b, a] := .swap b a []
  have hrules : [slow, idle].Perm [idle, slow] := .swap idle slow []
  obtain ⟨hjudged, hany⟩ := h.verdict_faithful h' hp hrules round
  obtain ⟨hsums, hsame, -, -⟩ := hany (exactPlace round)
  obtain ⟨hslow, hrest⟩ := List.forall₂_cons.1 hjudged
  have hidle : idle.Judged round [a, b] (evaluate idle) :=
    (List.forall₂_cons.1 hrest).1
  have hone : (slow.filter.wanted [a, b]).length = 1 := by decide +kernel
  have hnone : idle.filter.wanted [a, b] = [] := by decide +kernel
  have hwanted : slow.filter.wanted [a, b] ≠ [] := List.ne_nil_of_length_eq_add_one hone
  have hinconclusive := hidle.inconclusive.2 hnone
  obtain ⟨x, hx⟩ := Option.ne_none_iff_exists'.1 (mt hslow.unobserved.1 hwanted)
  refine ⟨h, h', hp, hrules, rfl, hslow.samples.trans hone, ⟨x, hx, hslow.observed x hx⟩,
    mt hslow.inconclusive.1 hwanted, hinconclusive, ?_, hsame⟩
  intro hpassed
  -- An inconclusive rule keeps the verdict from passing.
  have hpass := hsums.passed.1 hpassed (evaluate idle) (List.mem_cons_of_mem _ List.mem_cons_self)
  rw [hinconclusive] at hpass
  cases hpass

end LoadReplay
