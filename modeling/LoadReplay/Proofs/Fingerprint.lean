import LoadReplay.Summary.Basic
import Mathlib.Data.List.Nodup

/-!
# What a fingerprint tells of the setup

The hash takes in the texts of the setup one right after another.  The bytes are those of the joined
texts (`identityBytes_eq_iff`), so nothing in them says where one text ends and the next begins: the
end of the target may as well be the beginning of the first scenario's name.

Apart from that nothing is lost.  Sorting by names that differ from each other puts the scenarios of
one setup into one order (`sortedPairs_eq`), and joined texts of known lengths can be taken apart
(`eq_of_join_eq`).

Main statements: `RunSummary.sameSetup_iff`, `RunSummary.fingerprint_rerun`.
-/

namespace LoadReplay

/-! ## Joined texts -/

/-- Reading bytes into a list from a place on. -/
theorem bytes_toList_loop (bytes : ByteArray) (i : Nat) (read : List UInt8) :
    ByteArray.toList.loop bytes i read = read.reverse ++ bytes.data.toList.drop i := by
  induction i, read using ByteArray.toList.loop.induct bytes with
  | case1 i read hi ih =>
    have hlen : i < bytes.data.toList.length := by rw [Array.length_toList]; exact hi
    have hget : bytes.get! i = bytes.data.toList[i] := by
      rw [Array.getElem_toList]
      exact getElem!_pos bytes.data i hi
    rw [ByteArray.toList.loop, if_pos hi, ih, List.drop_eq_getElem_cons hlen, hget,
      List.reverse_cons, List.append_assoc, List.singleton_append]
  | case2 i read hi =>
    have hlen : bytes.data.toList.length ≤ i := by
      rw [Array.length_toList]; exact Nat.le_of_not_lt hi
    rw [ByteArray.toList.loop, if_neg hi, List.drop_eq_nil_of_le hlen, List.append_nil]

/-- The bytes of an array one after another. -/
theorem bytes_toList (bytes : ByteArray) : bytes.toList = bytes.data.toList :=
  bytes_toList_loop bytes 0 []

/-- The bytes of some texts are those of the joined texts. -/
theorem flatMap_toUTF8 (texts : List String) :
    texts.flatMap (fun t => t.toUTF8.toList) = (String.join texts).toUTF8.toList := by
  induction texts with
  | nil => rw [bytes_toList]; rfl
  | cons t rest ih =>
    rw [List.flatMap_cons, ih, String.join_cons, bytes_toList, bytes_toList,
      bytes_toList]
    have happend : (t ++ String.join rest).toUTF8 = t.toUTF8 ++ (String.join rest).toUTF8 :=
      String.toByteArray_append
    rw [happend, ByteArray.data_append, Array.toList_append]

/-- Texts with the same bytes are equal. -/
theorem toUTF8_toList_inj {s t : String} : s.toUTF8.toList = t.toUTF8.toList ↔ s = t := by
  rw [bytes_toList, bytes_toList]
  constructor
  · intro h
    exact String.toByteArray_inj.1 (ByteArray.ext (Array.toList_inj.1 h))
  · intro h
    rw [h]

/-- The characters of joined texts are those of the first one and of the others. -/
theorem toList_join_cons (t : String) (rest : List String) :
    (String.join (t :: rest)).toList = t.toList ++ (String.join rest).toList := by
  rw [String.join_cons, String.toList_append]

/-- Joined texts can be taken apart where their lengths are known. -/
theorem eq_of_join_eq {l l' : List String} (hjoin : String.join l = String.join l')
    (hlen : l.map String.length = l'.map String.length) : l = l' := by
  induction l generalizing l' with
  | nil => exact (List.map_eq_nil_iff.1 hlen.symm).symm
  | cons t rest ih =>
    obtain ⟨t', rest', rfl, ht, hrest⟩ := List.map_eq_cons_iff.1 hlen.symm
    rw [← String.toList_inj, toList_join_cons, toList_join_cons] at hjoin
    have hsize : t.toList.length = t'.toList.length := by
      rw [String.length_toList, String.length_toList, ht]
    obtain ⟨hfirst, hothers⟩ := List.append_inj hjoin hsize
    rw [String.toList_inj.1 hfirst, ih (String.toList_inj.1 hothers) hrest.symm]

/-- A difference within one of several joined texts is never lost. -/
theorem join_ne {before after : List String} {x y : String} (h : x ≠ y) :
    String.join (before ++ x :: after) ≠ String.join (before ++ y :: after) := by
  intro hjoin
  induction before with
  | nil =>
    -- What comes behind the two texts is the same, so it can be taken off.
    rw [List.nil_append, List.nil_append, ← String.toList_inj, toList_join_cons,
      toList_join_cons] at hjoin
    exact h (String.toList_inj.1 (List.append_cancel_right hjoin))
  | cons t rest ih =>
    rw [List.cons_append, List.cons_append, ← String.toList_inj, toList_join_cons,
      toList_join_cons] at hjoin
    exact ih (String.toList_inj.1 (List.append_cancel_left hjoin))

namespace RunSummary

/-! ## Setups -/

/-- What a setup says of its scenarios: their names and executors. -/
def pairs (s : RunSummary) : List (String × String) :=
  s.scenarios.map fun c => (c.name, c.executor)

/-- The names of the scenarios are those of the pairs. -/
theorem names_eq_map_pairs (s : RunSummary) : s.scenarios.map (·.name) = s.pairs.map Prod.fst := by
  rw [pairs, List.map_map]
  rfl

/-- The rules of the thresholds, in order. -/
def rules (s : RunSummary) : List String := s.thresholds.map (·.rule)

/-- Whether the names of the scenarios differ from each other. -/
def NamesDiffer (s : RunSummary) : Prop := (s.scenarios.map (·.name)).Nodup

/-- Whether two runs were set up in the same way. -/
structure SameSetup (a b : RunSummary) : Prop where
  runName : a.runName = b.runName
  target : a.target = b.target
  scenarios : ∀ name executor, (name, executor) ∈ a.pairs ↔ (name, executor) ∈ b.pairs
  rules : a.rules = b.rules
  version : a.version = b.version

/-! ## The order of the scenarios -/

/-- The names and executors in the order in which they are hashed. -/
def sortedPairs (s : RunSummary) : List (String × String) :=
  (byName s.scenarios).map fun c => (c.name, c.executor)

/-- The texts that identify a setup, in the order in which they are joined. -/
theorem identity_eq (s : RunSummary) :
    s.identity =
      [s.runName, s.target] ++ s.sortedPairs.flatMap (fun p => [p.1, p.2]) ++ s.rules
        ++ [s.version] := by
  rw [sortedPairs, List.flatMap_map]
  rfl

/-- Sorting the pairs loses none. -/
theorem sortedPairs_perm (s : RunSummary) : s.sortedPairs.Perm s.pairs :=
  (List.mergeSort_perm _ _).map _

/-- There are as many pairs as scenarios. -/
theorem sortedPairs_length (s : RunSummary) : s.sortedPairs.length = s.scenarios.length := by
  rw [s.sortedPairs_perm.length_eq, pairs, List.length_map]

/-- The pairs stand in the order of their names. -/
theorem sortedPairs_sorted (s : RunSummary) :
    s.sortedPairs.Pairwise fun p q => (compare p.1 q.1).isLE := by
  rw [sortedPairs, List.pairwise_map]
  apply @List.pairwise_mergeSort _ fun (c d : ScenarioSummary) => (compare c.name d.name).isLE
  · intro a b c hab hbc
    exact Std.TransCmp.isLE_trans hab hbc
  · intro a b
    have hswap : compare b.name a.name = (compare a.name b.name).swap := Std.OrientedCmp.eq_swap
    rw [hswap]
    cases compare a.name b.name <;> rfl

/-- Two scenarios of one name are one scenario. -/
theorem pairs_unique {s : RunSummary} (h : s.NamesDiffer) {p q : String × String}
    (hp : p ∈ s.pairs) (hq : q ∈ s.pairs) (hname : p.1 = q.1) : p = q := by
  obtain ⟨c, hc, rfl⟩ := List.mem_map.1 hp
  obtain ⟨d, hd, rfl⟩ := List.mem_map.1 hq
  rw [List.inj_on_of_nodup_map h hc hd hname]

/-- Scenarios with different names give different pairs. -/
theorem pairs_nodup {s : RunSummary} (h : s.NamesDiffer) : s.pairs.Nodup := by
  rw [NamesDiffer, names_eq_map_pairs] at h
  exact h.of_map

/-- Sorting by name puts the scenarios of one setup into one order. -/
theorem sortedPairs_eq {a b : RunSummary} (ha : a.NamesDiffer) (hb : b.NamesDiffer)
    (h : ∀ name executor, (name, executor) ∈ a.pairs ↔ (name, executor) ∈ b.pairs) :
    a.sortedPairs = b.sortedPairs := by
  have hperm : a.pairs.Perm b.pairs :=
    (List.perm_ext_iff_of_nodup (pairs_nodup ha) (pairs_nodup hb)).2 fun p => h p.1 p.2
  refine List.Perm.eq_of_pairwise ?_ a.sortedPairs_sorted b.sortedPairs_sorted
    (a.sortedPairs_perm.trans (hperm.trans b.sortedPairs_perm.symm))
  -- The order compares names only; that pairs of one name are equal is what the names' being
  -- different gives.
  intro p q hp hq hpq hqp
  have hname : p.1 = q.1 :=
    Std.LawfulEqCmp.eq_of_compare (Std.OrientedCmp.isLE_antisymm hpq hqp)
  have hp' : p ∈ a.pairs := a.sortedPairs_perm.mem_iff.1 hp
  have hq' : q ∈ a.pairs := hperm.mem_iff.2 (b.sortedPairs_perm.mem_iff.1 hq)
  exact pairs_unique ha hp' hq' hname

/-! ## Setups and their texts -/

/-- The same setup has the same texts, as pairs with different names are sorted in one way only. -/
theorem SameSetup.identity_eq {a b : RunSummary} (ha : a.NamesDiffer) (hb : b.NamesDiffer)
    (h : a.SameSetup b) : a.identity = b.identity := by
  rw [a.identity_eq, b.identity_eq, h.runName, h.target, sortedPairs_eq ha hb h.scenarios, h.rules,
    h.version]

/-- The same setup has the same number of scenarios. -/
theorem SameSetup.scenarios_length {a b : RunSummary} (ha : a.NamesDiffer) (hb : b.NamesDiffer)
    (h : a.SameSetup b) : a.scenarios.length = b.scenarios.length := by
  rw [← a.sortedPairs_length, ← b.sortedPairs_length, sortedPairs_eq ha hb h.scenarios]

/-- Pairs that are written one after another can be read again. -/
theorem eq_of_flatMap_pair {l l' : List (String × String)}
    (h : l.flatMap (fun p => [p.1, p.2]) = l'.flatMap (fun p => [p.1, p.2])) : l = l' := by
  induction l generalizing l' with
  | nil =>
    cases l' with
    | nil => rfl
    | cons p rest => exact absurd h.symm (List.cons_ne_nil _ _)
  | cons p rest ih =>
    cases l' with
    | nil => exact absurd h (List.cons_ne_nil _ _)
    | cons q rest' =>
      obtain ⟨hname, h⟩ := List.cons.inj h
      obtain ⟨hexecutor, h⟩ := List.cons.inj h
      rw [Prod.ext hname hexecutor, ih h]

/-- Each pair has two texts. -/
theorem length_flatMap_pair (l : List (String × String)) :
    (l.flatMap fun p => [p.1, p.2]).length = 2 * l.length := by
  induction l with
  | nil => rfl
  | cons p rest ih =>
    have hpair : [p.1, p.2].length = 2 := rfl
    rw [List.flatMap_cons, List.length_append, ih, hpair, List.length_cons]
    omega

/-- The texts say where the scenarios end and the rules begin as soon as the number of scenarios is
known. -/
theorem sameSetup_of_identity_eq {a b : RunSummary} (h : a.identity = b.identity)
    (hlen : a.scenarios.length = b.scenarios.length) : a.SameSetup b := by
  rw [a.identity_eq, b.identity_eq] at h
  -- One version at the end, two texts at the beginning, and a known number of pairs behind them:
  -- the rules are what is left.
  obtain ⟨h, hversion⟩ := List.append_inj' h rfl
  simp only [List.cons_append, List.nil_append] at h
  obtain ⟨hrunName, h⟩ := List.cons.inj h
  obtain ⟨htarget, h⟩ := List.cons.inj h
  have hpairsLength : (a.sortedPairs.flatMap fun p => [p.1, p.2]).length
      = (b.sortedPairs.flatMap fun p => [p.1, p.2]).length := by
    rw [length_flatMap_pair, length_flatMap_pair, sortedPairs_length, sortedPairs_length, hlen]
  obtain ⟨hpairs, hrules⟩ := List.append_inj h hpairsLength
  have hsorted := eq_of_flatMap_pair hpairs
  refine ⟨hrunName, htarget, fun name executor => ?_, hrules, (List.cons.inj hversion).1⟩
  rw [← a.sortedPairs_perm.mem_iff, hsorted, b.sortedPairs_perm.mem_iff]

/-- The bytes tell the joined texts, and no more. -/
theorem identityBytes_eq_iff (a b : RunSummary) :
    a.identityBytes = b.identityBytes ↔ String.join a.identity = String.join b.identity := by
  rw [identityBytes, identityBytes, flatMap_toUTF8, flatMap_toUTF8, toUTF8_toList_inj]

/-- The hashed bytes are those of the joined texts of the setup, and the setup is what they and the
places where its texts end tell.  A difference in one of the texts alone shows in the bytes; one
that only moves characters between neighbouring texts does not. -/
theorem sameSetup_iff {a b : RunSummary} (ha : a.NamesDiffer) (hb : b.NamesDiffer) :
    (a.identityBytes = b.identityBytes ↔ String.join a.identity = String.join b.identity) ∧
      (a.SameSetup b ↔
        a.identityBytes = b.identityBytes ∧ a.scenarios.length = b.scenarios.length ∧
          a.identity.map String.length = b.identity.map String.length) ∧
      (∀ before x y after, a.identity = before ++ x :: after → b.identity = before ++ y :: after →
        x ≠ y → a.identityBytes ≠ b.identityBytes) := by
  refine ⟨identityBytes_eq_iff a b, ⟨fun h => ?_, ?_⟩, ?_⟩
  · have hidentity := h.identity_eq ha hb
    rw [identityBytes, identityBytes, hidentity]
    exact ⟨rfl, h.scenarios_length ha hb, rfl⟩
  · rintro ⟨hbytes, hlen, htexts⟩
    exact sameSetup_of_identity_eq (eq_of_join_eq ((identityBytes_eq_iff a b).1 hbytes) htexts) hlen
  · intro before x y after hx hy hne hbytes
    rw [identityBytes_eq_iff, hx, hy] at hbytes
    exact join_ne hne hbytes

/-- A run with one scenario and one threshold. -/
def plainRun (target scenario : String) : RunSummary where
  runId := "run"
  runName := "nightly"
  startedAt := 1700000000
  target := target
  scenarios := [⟨scenario, "fixed-iterations(100 x 5)", 100, 5, false⟩]
  tags := .empty
  total := ⟨0, 0, none, none, none, none, none, none⟩
  thresholds := [⟨"p(95) < 4000", none, "inconclusive"⟩]
  verdict := "inconclusive"
  version := "0.1.0"

/-- The texts of an example. -/
theorem identity_plainRun (target scenario : String) :
    (plainRun target scenario).identity =
      ["nightly", target, scenario, "fixed-iterations(100 x 5)", "p(95) < 4000", "0.1.0"] := by
  rw [identity_eq, sortedPairs, byName, plainRun, List.mergeSort_singleton]
  rfl

/-- The last digit of the target may as well be the first one of the scenario's name. -/
theorem sameSetup_iff_movedDigit :
    let a := plainRun "http://localhost:8080/v1" "steady"
    let b := plainRun "http://localhost:8080/v" "1steady"
    a.NamesDiffer ∧ b.NamesDiffer ∧ a.identityBytes = b.identityBytes ∧ ¬a.SameSetup b := by
  have ha : (plainRun "http://localhost:8080/v1" "steady").NamesDiffer := List.nodup_singleton _
  have hb : (plainRun "http://localhost:8080/v" "1steady").NamesDiffer := List.nodup_singleton _
  obtain ⟨hbytes, hsetup, -⟩ := sameSetup_iff ha hb
  refine ⟨ha, hb, hbytes.2 ?_, fun h => ?_⟩
  · rw [identity_plainRun, identity_plainRun]
    rfl
  · have hlengths := (hsetup.1 h).2.2
    rw [identity_plainRun, identity_plainRun] at hlengths
    exact absurd hlengths (by decide)

/-! ## Further runs of one configuration -/

/-- Whether `b` may be the summary of a further run of what `a` was a run of.  The scenarios may
have been started in another order, and everything that only the run itself decides is left open:
its id and its time, what its scenarios did, its figures, how its rules were judged, its verdict. -/
structure Reruns (a b : RunSummary) : Prop where
  runName : b.runName = a.runName
  target : b.target = a.target
  scenarios : b.pairs.Perm a.pairs
  rules : b.rules = a.rules
  version : b.version = a.version

/-- A rerun has the same names, so they differ as well. -/
theorem Reruns.namesDiffer {a b : RunSummary} (h : a.Reruns b) (ha : a.NamesDiffer) :
    b.NamesDiffer := by
  rw [NamesDiffer, names_eq_map_pairs] at ha ⊢
  exact (h.scenarios.map Prod.fst).nodup_iff.2 ha

/-- A rerun has the same setup. -/
theorem Reruns.sameSetup {a b : RunSummary} (h : a.Reruns b) : b.SameSetup a where
  runName := h.runName
  target := h.target
  scenarios := fun _ _ => h.scenarios.mem_iff
  rules := h.rules
  version := h.version

/-- **Fingerprints tell configurations and not runs.**  A further run has the fingerprint of the
first one, whatever became of it and in whatever order its scenarios stand. -/
theorem fingerprint_rerun {a b : RunSummary} (ha : a.NamesDiffer) (h : a.Reruns b) :
    b.fingerprint = a.fingerprint := by
  have hidentity : b.identity = a.identity := h.sameSetup.identity_eq (h.namesDiffer ha) ha
  have hbytes : b.identityBytes = a.identityBytes := by
    rw [identityBytes, identityBytes, hidentity]
  rw [fingerprint, fingerprint, hbytes]

/-- A run of two scenarios and one that had them the other way round and was aborted. -/
theorem fingerprint_rerun_aborted :
    let steady : ScenarioSummary := ⟨"steady", "fixed-iterations(100 x 5)", 100, 5, false⟩
    let burst : ScenarioSummary := ⟨"burst", "constant-concurrency(8 for 60s)", 431, 8, false⟩
    let a := { plainRun "http://localhost:8080" "steady" with scenarios := [steady, burst] }
    let b := { a with
      runId := "other"
      startedAt := 1700003600
      scenarios := [{ burst with iterations := 12, interrupted := true },
        { steady with iterations := 7, peakVus := 3, interrupted := true }]
      thresholds := [⟨"p(95) < 4000", some 5210.5, "failed"⟩]
      verdict := "aborted" }
    a.NamesDiffer ∧ a.Reruns b ∧ b.scenarios.map (·.name) ≠ a.scenarios.map (·.name) ∧
      b.fingerprint = a.fingerprint := by
  intro steady burst a b
  have ha : a.NamesDiffer := by
    show ["steady", "burst"].Nodup
    decide
  have h : a.Reruns b :=
    { runName := rfl
      target := rfl
      scenarios := List.Perm.swap _ _ _
      rules := rfl
      version := rfl }
  refine ⟨ha, h, ?_, fingerprint_rerun ha h⟩
  show ["burst", "steady"] ≠ ["steady", "burst"]
  decide

end RunSummary

end LoadReplay
