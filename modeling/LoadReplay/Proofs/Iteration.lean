import LoadReplay.Run.User
import Mathlib.Algebra.GroupWithZero.Nat
import Mathlib.Data.List.Perm.Basic

/-!
# What an iteration sends

An iteration sends every request of every group once: group after group, each group in some order.
So the number of requests that it sends does not depend on what is drawn (`length_sent_iteration`).
-/

namespace LoadReplay

/-- The request that a move sends, if it sends one. -/
def Move.request? : Move → Option PreparedRequest
  | .pause _ => none
  | .send request => some request

/-- The requests that some moves send, in order. -/
def sent (moves : List Move) : List PreparedRequest := moves.filterMap Move.request?

/-- The number of requests of all groups. -/
def Post.size (p : Post) : Nat := (p.groups.map fun g => g.requests.length).sum

@[simp] theorem sent_nil : sent [] = [] := rfl

@[simp] theorem sent_pause (d : Span) (moves : List Move) :
    sent (.pause d :: moves) = sent moves := rfl

@[simp] theorem sent_send (request : PreparedRequest) (moves : List Move) :
    sent (.send request :: moves) = request :: sent moves := rfl

@[simp] theorem sent_append (a b : List Move) : sent (a ++ b) = sent a ++ sent b :=
  List.filterMap_append

/-! ## Shuffling -/

namespace Random

/-- Swapping two items loses none. -/
theorem swapIfInBounds_perm {α : Type} (items : Array α) (i j : Nat) :
    (items.swapIfInBounds i j).Perm items := by
  rw [Array.swapIfInBounds_def]
  split
  · split
    · exact Array.swap_perm _ _
    · exact Array.Perm.refl _
  · exact Array.Perm.refl _

/-- Neither does swapping one pair after another. -/
theorem shuffleDown_perm {α : Type} (items : Array α) (g : Generator) (n : Nat) :
    (shuffleDown items g n).1.Perm items := by
  induction n generalizing items g with
  | zero => exact Array.Perm.refl _
  | succ last ih => exact (ih _ _).trans (swapIfInBounds_perm items _ _)

/-- A shuffle keeps all items. -/
theorem shuffled_perm {α : Type} (items : List α) (g : Generator) :
    (shuffled items g).1.Perm items := by
  have h := shuffleDown_perm items.toArray g (items.length - 1)
  exact Array.perm_iff_toList_perm.mp h

end Random

/-! ## Groups and iterations -/

/-- Whatever order is drawn, it has the requests of the group. -/
theorem PreparedGroup.order_perm (g : PreparedGroup) (r : Random.Generator) :
    (g.order r).1.Perm g.requests := by
  rw [PreparedGroup.order]
  split
  · exact Random.shuffled_perm _ _
  · exact List.Perm.refl _

/-- The moves for some requests send just these, in order; the rest are pauses. -/
theorem Post.sent_requestMoves (p : Post) (first : Bool) (requests : List PreparedRequest)
    (r : Random.Generator) : sent (p.requestMoves first requests r).1 = requests := by
  induction requests generalizing first r with
  | nil => rfl
  | cons request rest ih =>
    cases first <;> simp [Post.requestMoves, ih]

/-- The moves for some groups send every request of each of them. -/
theorem Post.sent_groupMoves_perm (p : Post) (first : Bool) (groups : List PreparedGroup)
    (r : Random.Generator) :
    (sent (p.groupMoves first groups r).1).Perm (groups.flatMap fun g => g.requests) := by
  induction groups generalizing first r with
  | nil => exact List.Perm.refl _
  | cons g rest ih =>
    rw [Post.groupMoves, List.flatMap_cons, sent_append, Post.sent_requestMoves]
    exact (g.order_perm r).append (ih _ _)

/-- **An iteration sends every request of every group, each of them once.** -/
theorem Post.sent_iteration_perm (p : Post) (r : Random.Generator) :
    (sent (p.iteration r).1).Perm (p.groups.flatMap fun g => g.requests) := by
  show (sent (.pause _ :: (p.groupMoves true p.groups _).1 ++ [.pause _])).Perm _
  rw [List.cons_append, sent_pause, sent_append, sent_pause, sent_nil, List.append_nil]
  exact p.sent_groupMoves_perm _ _ _

/-- An iteration sends as many requests as there are. -/
theorem Post.length_sent_iteration (p : Post) (r : Random.Generator) :
    (sent (p.iteration r).1).length = p.size := by
  rw [(p.sent_iteration_perm r).length_eq, List.length_flatMap, Post.size]

end LoadReplay
