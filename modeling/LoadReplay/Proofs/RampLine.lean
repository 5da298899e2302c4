import LoadReplay.Proofs.RampTimeline
import Mathlib.Algebra.Order.Floor.Ring
import Mathlib.Data.Rat.Floor
import Mathlib.Tactic.Linarith

/-!
# The line of a ramp within a stage

In exact arithmetic the target within a stage is on the line from the target that the ramp has come
to (`along`), at the share of the stage that is over (`shareOf`), rounded down.  The share of a
moment in the stage is between none and all, and both ends of the line are whole, so rounding down
does not leave the range between them (`floor_along_bounds`).

Main statement: `pointAt_linear`.
-/

namespace LoadReplay.Ramp

open Number

/-- The value on the line from `a` to `b`, a share of the way along. -/
def along (a b : Nat) (share : Rat) : Rat := a + ((b : Rat) - a) * share

/-- Which share of stage number `i`, which has the given length, is over at a moment. -/
def shareOf (stages : List Stage) (i : Nat) (length elapsed : Span) : Rat :=
  ((elapsed.nanos - beginning stages i : Nat) : Rat) / length.nanos

section Line

variable {a b i : Nat} {share share' : Rat}

/-- A line does not fall below both of its ends. -/
theorem min_le_along (h0 : 0 ≤ share) (h1 : share ≤ 1) :
    ((min a b : Nat) : Rat) ≤ along a b share := by
  rw [along]
  rcases Nat.le_total a b with h | h
  · have hab : (a : Rat) ≤ b := by exact_mod_cast h
    rw [Nat.min_eq_left h]
    nlinarith
  · have hba : (b : Rat) ≤ a := by exact_mod_cast h
    rw [Nat.min_eq_right h]
    nlinarith

/-- It does not rise above both of its ends. -/
theorem along_le_max (h0 : 0 ≤ share) (h1 : share ≤ 1) :
    along a b share ≤ ((max a b : Nat) : Rat) := by
  rw [along]
  rcases Nat.le_total a b with h | h
  · have hab : (a : Rat) ≤ b := by exact_mod_cast h
    rw [Nat.max_eq_right h]
    nlinarith
  · have hba : (b : Rat) ≤ a := by exact_mod_cast h
    rw [Nat.max_eq_left h]
    nlinarith

/-- On the way up a later point is no lower. -/
theorem along_mono (hab : a ≤ b) (h : share ≤ share') : along a b share ≤ along a b share' := by
  have hcast : (a : Rat) ≤ b := by exact_mod_cast hab
  rw [along, along]
  nlinarith

/-- On the way down a later point is no higher. -/
theorem along_anti (hba : b ≤ a) (h : share ≤ share') : along a b share' ≤ along a b share := by
  have hcast : (b : Rat) ≤ a := by exact_mod_cast hba
  rw [along, along]
  nlinarith

/-- Rounding down does not leave the range between two whole ends. -/
theorem floor_along_bounds (a b : Nat) (h0 : 0 ≤ share) (h1 : share ≤ 1) :
    ((min a b : Nat) : Int) ≤ ⌊along a b share⌋ ∧ ⌊along a b share⌋ ≤ ((max a b : Nat) : Int) := by
  constructor
  · rw [Int.le_floor]
    exact_mod_cast min_le_along h0 h1
  · have hfloor : (⌊along a b share⌋ : Rat) ≤ ((max a b : Nat) : Rat) :=
      (Int.floor_le _).trans (along_le_max h0 h1)
    exact_mod_cast hfloor

variable {stages : List Stage} {stage : Stage} {elapsed later : Span}

/-- Within a stage its share lies between nothing and everything. -/
theorem InStage.shareOf_bounds (h : InStage stages elapsed i) (hi : stages[i]? = some stage) :
    0 ≤ shareOf stages i stage.duration elapsed ∧ shareOf stages i stage.duration elapsed ≤ 1 := by
  have hpos : (0 : Rat) < stage.duration.nanos := by exact_mod_cast h.duration_pos hi
  have hlasts := h.lasts
  rw [beginning_succ hi] at hlasts
  have hle : elapsed.nanos - beginning stages i ≤ stage.duration.nanos := by omega
  constructor
  · exact div_nonneg (Nat.cast_nonneg _) hpos.le
  · rw [shareOf, div_le_one hpos]
    exact_mod_cast hle

/-- Later the share is no less. -/
theorem shareOf_mono (stages : List Stage) (i : Nat) (length : Span) (h : elapsed ≤ later) :
    shareOf stages i length elapsed ≤ shareOf stages i length later := by
  have hle : elapsed.nanos - beginning stages i ≤ later.nanos - beginning stages i :=
    Nat.sub_le_sub_right h _
  rw [shareOf, shareOf]
  gcongr

/-- Within a stage, neither of the two guards of the computed target does anything. -/
theorem InStage.linearTarget_eq (h : InStage stages elapsed i) (hi : stages[i]? = some stage)
    (previous : Nat) :
    (linearTarget Rat previous stage (leftAfter elapsed (beginning stages i)) : Int) =
      ⌊along previous stage.target (shareOf stages i stage.duration elapsed)⌋ := by
  obtain ⟨h0, h1⟩ := h.shareOf_bounds hi
  obtain ⟨hmin, hmax⟩ := floor_along_bounds previous stage.target h0 h1
  have hprogress : seconds Rat (leftAfter elapsed (beginning stages i)) /
      seconds Rat stage.duration = shareOf stages i stage.duration elapsed := by
    rw [seconds_rat, seconds_rat, shareOf, div_div_div_cancel_right₀ (by norm_num)]
    rfl
  have htarget : linearTarget Rat previous stage (leftAfter elapsed (beginning stages i)) =
      min ⌊along previous stage.target (shareOf stages i stage.duration elapsed)⌋.toNat
        (max previous stage.target) := by
    rw [← hprogress]
    rfl
  rw [htarget]
  omega

end Line

/-- **The target within a stage is on the line from one target to the next, rounded down.**  In
exact arithmetic neither the bound from below nor the one from above changes it, since it never
leaves the range between the two targets.  It begins with the target that the ramp has come to, and
then it only goes towards the target of the stage.  There is no target only if the end of the stage
is beyond all spans. -/
theorem pointAt_linear (start : Nat) {stages : List Stage} {i : Nat} {stage : Stage}
    {elapsed : Span} (hi : stages[i]? = some stage) (hin : InStage stages elapsed i) :
    let a := reached start stages i
    let b := stage.target
    (pointAt Rat start stages .linear elapsed = none ↔ maxNanos < beginning stages (i + 1)) ∧
      ∀ point, pointAt Rat start stages .linear elapsed = some point →
        point.stage = some i ∧
        (point.target : Int) = ⌊along a b (shareOf stages i stage.duration elapsed)⌋ ∧
        min a b ≤ point.target ∧ point.target ≤ max a b ∧
        (elapsed.nanos = beginning stages i → point.target = a) ∧
        ∀ later point', elapsed ≤ later → InStage stages later i →
          pointAt Rat start stages .linear later = some point' →
          (a ≤ b → point.target ≤ point'.target) ∧ (b ≤ a → point'.target ≤ point.target) := by
  intro a b
  -- Within the stage the target is the floor of a point on the line from `a` to `b`.
  have htarget {t : Span} {p : Point} (ht : InStage stages t i)
      (hp : pointAt Rat start stages .linear t = some p) : p.stage = some i ∧
        (p.target : Int) = ⌊along a b (shareOf stages i stage.duration t)⌋ := by
    rw [pointAt_of_inStage hi ht] at hp
    split at hp
    · obtain rfl := Option.some.inj hp
      exact ⟨rfl, ht.linearTarget_eq hi _⟩
    · cases hp
  constructor
  · rw [pointAt_of_inStage hi hin]
    split <;> simp <;> omega
  intro point hpoint
  obtain ⟨hstage, heq⟩ := htarget hin hpoint
  obtain ⟨h0, h1⟩ := hin.shareOf_bounds hi
  obtain ⟨hmin, hmax⟩ := floor_along_bounds a b h0 h1
  refine ⟨hstage, heq, by omega, by omega, ?_, ?_⟩
  · intro hbegin
    have hnone : shareOf stages i stage.duration elapsed = 0 := by
      rw [shareOf, hbegin, Nat.sub_self, Nat.cast_zero, zero_div]
    rw [hnone, along, mul_zero, add_zero, Int.floor_natCast] at heq
    exact_mod_cast heq
  · intro later point' hlater hin' hpoint'
    obtain ⟨-, heq'⟩ := htarget hin' hpoint'
    have hshare := shareOf_mono stages i stage.duration hlater
    constructor
    · intro hab
      have hfloor := Int.floor_mono (along_mono hab hshare)
      omega
    · intro hba
      have hfloor := Int.floor_mono (along_anti hba hshare)
      omega

/-- A ramp that falls from ten users to none within ten seconds has eight after two of them. -/
theorem pointAt_linear_falling :
    let stages : List Stage := [⟨.millis 10_000, 0⟩]
    InStage stages (.millis 2_000) 0 ∧ InStage stages .zero 0 ∧
      (∃ point, pointAt Rat 10 stages .linear .zero = some point ∧ point.target = 10) ∧
      ∃ point, pointAt Rat 10 stages .linear (.millis 2_000) = some point ∧ point.target = 8 := by
  intro stages
  have hin : InStage stages (.millis 2_000) 0 := ⟨by decide, by decide⟩
  have hbegin : InStage stages .zero 0 := ⟨by decide, by decide⟩
  refine ⟨hin, hbegin, ?_, ?_⟩
  · obtain ⟨hnone, htarget⟩ := pointAt_linear 10 rfl hbegin
    obtain ⟨point, hpoint⟩ := Option.ne_none_iff_exists'.1 (mt hnone.1 (by decide))
    obtain ⟨-, -, -, -, hstart, -⟩ := htarget point hpoint
    exact ⟨point, hpoint, hstart rfl⟩
  · obtain ⟨hnone, htarget⟩ := pointAt_linear 10 rfl hin
    obtain ⟨point, hpoint⟩ := Option.ne_none_iff_exists'.1 (mt hnone.1 (by decide))
    obtain ⟨-, hfloor, -⟩ := htarget point hpoint
    have hvalue : ⌊along 10 0 (shareOf stages 0 (.millis 10_000) (.millis 2_000))⌋ = 8 := by
      decide +kernel
    exact ⟨point, hpoint, by exact_mod_cast hfloor.trans hvalue⟩

end LoadReplay.Ramp
