/-!
# Budgets of iterations

A number of iterations that the virtual users of a scenario share.  Each claim takes one, until none
is left.
-/

namespace LoadReplay

/-- The iterations of a scenario, and how many of them nobody has claimed yet. -/
structure Budget where
  total : Nat
  remaining : Nat
  remaining_le : remaining ≤ total := by omega

namespace Budget

/-- A budget of which nothing is claimed. -/
def full (total : Nat) : Budget := ⟨total, total, Nat.le_refl _⟩

/-- The budget after a claim, if one iteration is left. -/
def claim? (b : Budget) : Option Budget :=
  if b.remaining = 0 then none
  else some ⟨b.total, b.remaining - 1, Nat.le_trans (Nat.sub_le _ _) b.remaining_le⟩

/-- How many iterations are claimed. -/
def claimed (b : Budget) : Nat := b.total - b.remaining

/-- Makes `n` claims; also says how many of them were granted. -/
def claims (b : Budget) : Nat → Nat × Budget
  | 0 => (0, b)
  | n + 1 =>
    match b.claim? with
    | none => b.claims n
    | some b =>
      let (granted, b) := b.claims n
      (granted + 1, b)

/-- Each granted claim takes one iteration. -/
theorem claim?_eq_some {b b' : Budget} (h : b.claim? = some b') :
    b'.total = b.total ∧ b'.claimed = b.claimed + 1 := by
  unfold claim? at h
  split at h
  · simp at h
  · rename_i hr
    simp only [Option.some.injEq] at h
    subst h
    have := b.remaining_le
    simp only [claimed, true_and]
    omega

end Budget

end LoadReplay
