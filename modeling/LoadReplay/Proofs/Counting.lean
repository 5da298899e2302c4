import Mathlib.Data.List.Basic

/-!
# Counts of the items of a list

What a change in one place does to a count (`countP_modify`), and how a list is counted by its
places (`countP_range`).
-/

namespace LoadReplay

variable {α : Type}

/-- What a change of one item does to a count. -/
theorem countP_modify {items : List α} {i : Nat} {a : α} (f : α → α) (p : α → Bool)
    (h : items[i]? = some a) :
    (items.modify i f).countP p + (p a).toNat = items.countP p + (p (f a)).toNat := by
  -- Only the item in this place counts differently, so we go to it along the list.
  induction items generalizing i with
  | nil => cases h
  | cons b rest ih =>
    cases i with
    | zero =>
      obtain rfl : b = a := Option.some.inj h
      rw [List.modify_zero_cons, List.countP_cons, List.countP_cons]
      cases p b <;> cases p (f b) <;> simp
    | succ i =>
      have hrest := ih h
      rw [List.modify_succ_cons, List.countP_cons, List.countP_cons]
      omega

/-- What another item in one place does to a count. -/
theorem countP_set {items : List α} {i : Nat} {a : α} (p : α → Bool) (b : α)
    (h : items[i]? = some a) :
    (items.set i b).countP p + (p a).toNat = items.countP p + (p b).toNat := by
  rw [List.set_eq_modify]
  exact countP_modify (fun _ => b) p h

/-- Counting a list by its places. -/
theorem countP_range (items : List α) (p : α → Bool) :
    (List.range items.length).countP (fun i => items[i]?.any p) = items.countP p := by
  induction items with
  | nil => rfl
  | cons a rest ih =>
    rw [List.length_cons, List.range_succ_eq_map, List.countP_cons, List.countP_map,
      List.countP_cons, ← ih]
    congr 1

end LoadReplay
