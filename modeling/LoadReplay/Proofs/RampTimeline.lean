import LoadReplay.Proofs.Amounts
import LoadReplay.Proofs.Overflow
import LoadReplay.Proofs.RampSafety
import Mathlib.Algebra.Order.Field.Rat
import Mathlib.Tactic.FieldSimp
import Mathlib.Tactic.Positivity

/-!
# The timeline of a ramp

The stages of a ramp follow one another.  Stage number `i` begins when the stages before it are over
(`beginning`), from the target that they have led to (`reached`), and every moment before the end of
the ramp is in exactly one stage (`InStage`).

## Shape of the proof

`pointFrom_of_inStage` is the invariant of the walk along the stages: from a stage on, with the sum
of all durations before it, the walk finds the stage that the moment is in.  A moment in a stage
lies before its end, so the stage has a length, and a length is more than zero seconds also when
those are computed in binary64 (`value_seconds_pos`).

Main statement: `pointAt_located`, for any arithmetic and any shape.
-/

namespace LoadReplay.Ramp

open Number

/-- When stage number `i` begins, in nanoseconds from the start of the ramp. -/
def beginning (stages : List Stage) (i : Nat) : Nat := totalNanos (stages.take i)

/-- The target that a ramp comes to with its first `i` stages. -/
def reached (start : Nat) (stages : List Stage) (i : Nat) : Nat :=
  ((stages.take i).getLast?.map (·.target)).getD start

/-- Whether a moment is in stage number `i`. -/
structure InStage (stages : List Stage) (elapsed : Span) (i : Nat) : Prop where
  begun : beginning stages i ≤ elapsed.nanos
  lasts : elapsed.nanos < beginning stages (i + 1)

/-- What is left of a length of time when its first `n` nanoseconds are over. -/
def leftAfter (elapsed : Span) (n : Nat) : Span :=
  ⟨elapsed.nanos - n, Nat.le_trans (Nat.sub_le _ _) elapsed.le_max⟩

/-! ## Stages one after another -/

section Stages

variable {stages rest : List Stage} {stage : Stage} {elapsed later : Span} {start i j : Nat}

/-- A ramp is as long as its first stage and the others. -/
theorem totalNanos_cons (stage : Stage) (rest : List Stage) :
    totalNanos (stage :: rest) = stage.duration.nanos + totalNanos rest := by
  rw [totalNanos, List.map_cons, List.sum_cons, totalNanos]

@[simp] theorem beginning_zero : beginning stages 0 = 0 := rfl

@[simp] theorem beginning_cons_succ :
    beginning (stage :: rest) (i + 1) = stage.duration.nanos + beginning rest i :=
  totalNanos_cons stage (rest.take i)

@[simp] theorem beginning_length : beginning stages stages.length = totalNanos stages := by
  rw [beginning, List.take_length]

@[simp] theorem reached_zero : reached start stages 0 = start := rfl

@[simp] theorem reached_cons_succ :
    reached start (stage :: rest) (i + 1) = reached stage.target rest i := by
  rw [reached, reached, List.take_succ_cons, List.getLast?_cons]
  cases (rest.take i).getLast? <;> rfl

/-- A stage ends as much later as it is long. -/
theorem beginning_succ (h : stages[i]? = some stage) :
    beginning stages (i + 1) = beginning stages i + stage.duration.nanos := by
  rw [beginning, beginning, List.take_add_one, h, totalNanos, totalNanos, Option.toList_some,
    List.map_append, List.sum_append, List.map_singleton, List.sum_singleton]

/-- Later stages begin later, or at the same time. -/
theorem beginning_mono (h : i ≤ j) : beginning stages i ≤ beginning stages j := by
  induction stages generalizing i j with
  | nil => rw [beginning, beginning, List.take_nil, List.take_nil]
  | cons stage rest ih =>
    cases i with
    | zero => exact Nat.zero_le _
    | succ i =>
      cases j with
      | zero => omega
      | succ j =>
        have hrest : beginning rest i ≤ beginning rest j := ih (by omega)
        rw [beginning_cons_succ, beginning_cons_succ]
        omega

/-- Every stage begins before the ramp is over. -/
theorem beginning_le_totalNanos (stages : List Stage) (i : Nat) :
    beginning stages i ≤ totalNanos stages := by
  rcases Nat.le_total i stages.length with h | h
  · rw [← beginning_length]
    exact beginning_mono h
  · rw [beginning, List.take_of_length_le h]

namespace InStage

/-- A moment is in at most one stage, and in no earlier one than any moment before it. -/
theorem le_of_le (h : InStage stages elapsed i) (h' : InStage stages later j)
    (hle : elapsed ≤ later) : i ≤ j := by
  by_contra hlt
  have hends : beginning stages (j + 1) ≤ beginning stages i := beginning_mono (by omega)
  have hlasts := h'.lasts
  have hbegun := h.begun
  rw [Span.le_def] at hle
  omega

/-- A moment is in one stage only. -/
theorem unique (h : InStage stages elapsed i) (h' : InStage stages elapsed j) : i = j :=
  Nat.le_antisymm (h.le_of_le h' (Nat.le_refl _)) (h'.le_of_le h (Nat.le_refl _))

/-- The stage that a moment is in is one of the ramp. -/
theorem lt_length (h : InStage stages elapsed i) : i < stages.length := by
  by_contra hle
  have hall := beginning_le_totalNanos stages (i + 1)
  rw [← beginning_length] at hall
  have hmono : beginning stages stages.length ≤ beginning stages i := beginning_mono (by omega)
  have hbegun := h.begun
  have hlasts := h.lasts
  omega

/-- A stage without length is over at once, so no moment is in it. -/
theorem duration_pos (h : InStage stages elapsed i) (hi : stages[i]? = some stage) :
    0 < stage.duration.nanos := by
  have hbegun := h.begun
  have hlasts := h.lasts
  rw [beginning_succ hi] at hlasts
  omega

end InStage

/-- Every moment before the end of a ramp is in one of its stages. -/
theorem exists_inStage (h : elapsed.nanos < totalNanos stages) :
    ∃ i stage, stages[i]? = some stage ∧ InStage stages elapsed i := by
  -- The stage is the last of those that have begun.
  have hend : elapsed.nanos < beginning stages stages.length := by rwa [beginning_length]
  obtain ⟨i, hbegun, hlasts⟩ : ∃ i, beginning stages i ≤ elapsed.nanos ∧
      elapsed.nanos < beginning stages (i + 1) := by
    generalize stages.length = n at hend
    induction n with
    | zero => exact absurd hend (Nat.not_lt_zero _)
    | succ n ih =>
      by_cases hn : elapsed.nanos < beginning stages n
      · exact ih hn
      · exact ⟨n, Nat.le_of_not_lt hn, hend⟩
  have hin : InStage stages elapsed i := ⟨hbegun, hlasts⟩
  exact ⟨i, stages.get ⟨i, hin.lt_length⟩, List.getElem?_eq_getElem _, hin⟩

end Stages

/-! ## The walk along the stages -/

section Walk

variable {α : Type} [Scalar α] {shape : RampShape} {stages : List Stage} {stage : Stage}
  {elapsed stageStart : Span} {start previous index i : Nat}

/-- The walk finds the stage that a moment is in, if the end of that stage is in range. -/
theorem pointFrom_of_inStage (hi : stages[i]? = some stage)
    (hbegun : stageStart.nanos + beginning stages i ≤ elapsed.nanos)
    (hlasts : elapsed.nanos < stageStart.nanos + beginning stages (i + 1)) :
    pointFrom α shape elapsed previous index stageStart stages =
      if stageStart.nanos + beginning stages (i + 1) ≤ maxNanos then
        some
          { target := stageTarget α shape (reached previous stages i) stage
              (leftAfter elapsed (stageStart.nanos + beginning stages i))
            stage := some (index + i), finished := false }
      else none := by
  -- Stage after stage, as the search goes; `stageStart` collects the lengths of those that are
  -- over.
  induction stages generalizing previous index stageStart i with
  | nil => cases hi
  | cons first rest ih =>
    rw [pointFrom]
    cases i with
    | zero =>
      obtain rfl := Option.some.inj hi
      simp only [beginning_cons_succ, beginning_zero, Nat.add_zero] at hlasts ⊢
      cases hadd : stageStart.add? first.duration with
      | none => rw [if_neg (Nat.not_le_of_lt (Span.add?_eq_none.1 hadd))]
      | some stageEnd =>
        have hend := Span.add?_eq_some hadd
        have hlt : elapsed < stageEnd := by rwa [Span.lt_def, hend]
        simp only [← hend, stageEnd.le_max, hlt, if_true]
        rfl
    | succ i =>
      rw [beginning_cons_succ, ← Nat.add_assoc] at hbegun hlasts ⊢
      rw [beginning_cons_succ, ← Nat.add_assoc]
      cases hadd : stageStart.add? first.duration with
      | none =>
        have hout := Span.add?_eq_none.1 hadd
        rw [if_neg (by omega)]
      | some stageEnd =>
        have hend := Span.add?_eq_some hadd
        have hge : ¬ elapsed < stageEnd := by
          rw [Span.lt_def, hend]
          omega
        rw [← hend] at hbegun hlasts ⊢
        simp only [hge, if_false]
        rw [ih hi hbegun hlasts, reached_cons_succ, Nat.add_assoc, Nat.add_comm 1 i]

/-- Behind all stages the walk ends with the last target. -/
theorem pointFrom_of_le (hrange : stageStart.nanos + totalNanos stages ≤ maxNanos)
    (hle : stageStart.nanos + totalNanos stages ≤ elapsed.nanos) :
    pointFrom α shape elapsed previous index stageStart stages =
      some
        { target := reached previous stages stages.length, stage := none, finished := true } := by
  induction stages generalizing previous index stageStart with
  | nil => rfl
  | cons first rest ih =>
    rw [totalNanos_cons, ← Nat.add_assoc] at hrange hle
    rw [pointFrom]
    cases hadd : stageStart.add? first.duration with
    | none =>
      have hout := Span.add?_eq_none.1 hadd
      omega
    | some stageEnd =>
      have hend := Span.add?_eq_some hadd
      rw [← hend] at hrange hle
      have hge : ¬ elapsed < stageEnd := by
        rw [Span.lt_def]
        omega
      simp only [hge, if_false]
      rw [ih hrange hle, List.length_cons, reached_cons_succ]

/-- In a stage the ramp is on its line, if the end of the stage can be told. -/
theorem pointAt_of_inStage (hi : stages[i]? = some stage) (hin : InStage stages elapsed i) :
    pointAt α start stages shape elapsed =
      if beginning stages (i + 1) ≤ maxNanos then
        some
          { target := stageTarget α shape (reached start stages i) stage
              (leftAfter elapsed (beginning stages i))
            stage := some i, finished := false }
      else none := by
  have hbegun : Span.zero.nanos + beginning stages i ≤ elapsed.nanos := by
    rw [Span.nanos_zero, Nat.zero_add]
    exact hin.begun
  have hlasts : elapsed.nanos < Span.zero.nanos + beginning stages (i + 1) := by
    rw [Span.nanos_zero, Nat.zero_add]
    exact hin.lasts
  rw [pointAt, pointFrom_of_inStage hi hbegun hlasts]
  simp only [Span.nanos_zero, Nat.zero_add]

variable {total : Span}

/-- A length that was found is the sum of the stages. -/
theorem totalNanos_eq (h : totalDuration? stages = some total) :
    totalNanos stages = total.nanos := by
  rw [totalDuration?_eq] at h
  exact (Span.ofNanos?_eq_some h).symm

/-- Past its end the ramp stays at what it has reached. -/
theorem pointAt_of_le (h : totalDuration? stages = some total) (hle : total ≤ elapsed) :
    pointAt α start stages shape elapsed =
      some { target := reached start stages stages.length, stage := none, finished := true } := by
  have htotal : (Span.zero).nanos + totalNanos stages = total.nanos := by
    rw [Span.nanos_zero, Nat.zero_add, totalNanos_eq h]
  apply pointFrom_of_le
  · rw [htotal]
    exact total.le_max
  · rwa [htotal]

/-- Before its end the ramp is in one of its stages. -/
theorem pointAt_of_lt (α : Type) [Scalar α] (start : Nat) (shape : RampShape)
    (h : totalDuration? stages = some total) (hlt : elapsed < total) :
    ∃ i stage, stages[i]? = some stage ∧ InStage stages elapsed i ∧
      pointAt α start stages shape elapsed = some
        { target := stageTarget α shape (reached start stages i) stage
            (leftAfter elapsed (beginning stages i))
          stage := some i, finished := false } := by
  rw [Span.lt_def, ← totalNanos_eq h] at hlt
  obtain ⟨i, stage, hi, hin⟩ := exists_inStage hlt
  have hrange : beginning stages (i + 1) ≤ maxNanos := by
    have hle := beginning_le_totalNanos stages (i + 1)
    rw [totalNanos_eq h] at hle
    exact hle.trans total.le_max
  refine ⟨i, stage, hi, hin, ?_⟩
  rw [pointAt_of_inStage hi hin, if_pos hrange]

/-- The stage of a point is the one that the moment is in. -/
theorem inStage_of_pointAt {point : Point} (h : totalDuration? stages = some total)
    (hpoint : pointAt α start stages shape elapsed = some point) (hstage : point.stage = some i) :
    InStage stages elapsed i := by
  by_cases hle : total ≤ elapsed
  · rw [pointAt_of_le h hle] at hpoint
    obtain rfl := Option.some.inj hpoint
    cases hstage
  · obtain ⟨j, stage, -, hin, heq⟩ :=
      pointAt_of_lt α start shape h (Nat.lt_of_not_le hle)
    rw [heq] at hpoint
    obtain rfl := Option.some.inj hpoint
    obtain rfl := Option.some.inj hstage
    exact hin

end Walk

/-! ## Seconds -/

/-- In rational numbers a length has exact seconds. -/
theorem seconds_rat (a : Span) : seconds Rat a = a.nanos / 1_000_000_000 := by
  have hsum : a.seconds * 1_000_000_000 + a.subNanos = a.nanos := by
    rw [Span.seconds, Span.subNanos]
    omega
  have hcast : (a.seconds : Rat) * 1_000_000_000 + a.subNanos = a.nanos := by exact_mod_cast hsum
  show (a.seconds : Rat) + (a.subNanos : Rat) / ((1_000_000_000 : Nat) : Rat) = _
  rw [← hcast]
  push_cast
  field_simp

/-- No length but nothing is zero seconds in binary64. -/
theorem value_seconds_pos {a : Span} (h : 0 < a.nanos) : 0 < Number.value (seconds Float a) := by
  have hbillion : IsNear 1_000_000_000 (ofCount 1_000_000_000) := by
    exact_mod_cast isNear_ofCount (n := 1_000_000_000) (by norm_num)
  have hlength : 0 < a.seconds ∨ 0 < a.subNanos := by
    unfold Span.seconds Span.subNanos
    omega
  exact (isAmount_seconds hbillion (seconds_lt a) (Nat.mod_lt _ (by norm_num))).2.2 hlength

/-- **A ramp is located correctly at every moment.**  If the durations of its stages can be added
up, there is a point at every moment.  It is the end of the ramp exactly if all stages are over, and
then the target is that of the last stage.  Otherwise it is in the one stage that the moment is in:
a stage that has a length, so that no share of it is taken of nothing.  The target is no more than
that stage comes from and leads to, and on a step it is what the stage leads to.  No later moment is
in an earlier stage. -/
theorem pointAt_located (α : Type) [Scalar α] (start : Nat) {stages : List Stage}
    (shape : RampShape) {total : Span} (h : totalDuration? stages = some total) (elapsed : Span) :
    ∃ point, pointAt α start stages shape elapsed = some point ∧
      (point.finished = true ↔ total ≤ elapsed) ∧
      (point.finished = true →
        point.stage = none ∧ point.target = reached start stages stages.length) ∧
      (point.finished = false → ∃ i stage, point.stage = some i ∧ stages[i]? = some stage ∧
        (∀ j, InStage stages elapsed j ↔ j = i) ∧ stage.duration ≠ .zero ∧
        seconds Rat stage.duration ≠ 0 ∧ 0 < Number.value (seconds Float stage.duration) ∧
        point.target ≤ max stage.target (reached start stages i) ∧
        (shape = .step → point.target = stage.target)) ∧
      ∀ later point' i', elapsed ≤ later → pointAt α start stages shape later = some point' →
        point'.stage = some i' → ∃ i, point.stage = some i ∧ i ≤ i' := by
  -- Behind the last stage there is no later stage to be found.
  by_cases hle : total ≤ elapsed
  · refine ⟨_, pointAt_of_le h hle, by simp [hle], by simp, by simp, ?_⟩
    intro later point' i' hlater hpoint' hi'
    have hover : total ≤ later := Nat.le_trans hle hlater
    rw [pointAt_of_le h hover] at hpoint'
    obtain rfl := Option.some.inj hpoint'
    cases hi'
  · obtain ⟨i, stage, hi, hin, hpoint⟩ :=
      pointAt_of_lt α start shape h (Nat.lt_of_not_le hle)
    have hpos := hin.duration_pos hi
    refine ⟨_, hpoint, by simp [hle], by simp, fun _ => ?_, ?_⟩
    · refine ⟨i, stage, rfl, hi, ?_, ?_, ?_, value_seconds_pos hpos, ?_, ?_⟩
      · intro j
        refine ⟨fun hj => hj.unique hin, ?_⟩
        rintro rfl
        exact hin
      · intro hzero
        rw [hzero] at hpos
        exact absurd hpos (Nat.lt_irrefl 0)
      · rw [seconds_rat]
        positivity
      · rw [Nat.max_comm]
        exact stageTarget_le α shape _ stage _
      · rintro rfl
        rfl
    · intro later point' i' hlater hpoint' hi'
      exact ⟨i, rfl, hin.le_of_le (inStage_of_pointAt h hpoint' hi') hlater⟩

/-- A ramp with a jump at either end: it begins in the stage behind the first jump, and the last one
is its end. -/
theorem pointAt_located_jumps :
    let stages : List Stage := [⟨.zero, 20⟩, ⟨.millis 10_000, 40⟩, ⟨.zero, 5⟩]
    totalDuration? stages = some (.millis 10_000) ∧
      (∃ point, pointAt Float 2 stages .linear .zero = some point ∧ point.stage = some 1 ∧
        point.target ≤ 40) ∧
      pointAt Float 2 stages .linear (.millis 10_000) = some ⟨5, none, true⟩ := by
  intro stages
  have htotal : totalDuration? stages = some (.millis 10_000) := by decide
  refine ⟨htotal, ?_, ?_⟩
  · obtain ⟨point, hpoint, hfinished, -, hin, -⟩ := pointAt_located Float 2 .linear htotal .zero
    have hopen : point.finished = false :=
      Bool.eq_false_iff.2 (mt hfinished.1 (by decide))
    obtain ⟨i, stage, hi, hstage, hone, -, -, -, hle, -⟩ := hin hopen
    have hfirst : InStage stages .zero 1 := ⟨by decide, by decide⟩
    obtain rfl := (hone 1).1 hfirst
    obtain rfl := Option.some.inj hstage
    exact ⟨point, hpoint, hi, hle⟩
  · obtain ⟨point, hpoint, hfinished, hend, -, -⟩ :=
      pointAt_located Float 2 .linear htotal (.millis 10_000)
    have hover := hfinished.2 (Nat.le_refl _)
    obtain ⟨hstage, htarget⟩ := hend hover
    cases point
    cases hover
    cases hstage
    cases htarget
    exact hpoint

end LoadReplay.Ramp
