import Mathlib

/-!
# Rounding to binary64

The arithmetic of floating-point numbers computes a mantissa with a round bit and a sticky bit,
shifts it to the exponent that the result shall have, and rounds it by the two bits.  Here this is
compared with the exact result: a mantissa with its bits `Stands` for a number, shifting divides
that number by a power of two, and rounding gives the whole number that is nearest.

`RoundsTo v m e` says of a number, without any computation, that it lies in the interval of all
numbers that round to `m · 2 ^ e`.  `IsRounded s v u` says of an unpacked value that it was
computed by rounding from a mantissa that stands for the number `v`.

## Shape of the proof

Rounding makes two shifts.  The second one only does something if the first one has rounded up to
the next power of two (`roundWithAccuracy_eq`), so the result has the exponent of the exact number,
or the one above it.  `targetExponent_cases` compares that exponent with the one of the value whose
interval the number is in; in both cases the nearest whole number is the significand of that value.
Each operation then only has to name the mantissa that it rounds, and the number which that stands
for: `round_isRounded`, `mul_isRounded`, `div_isRounded`, `ofNat_isRounded`.

Main statements: `IsRounded.eq_finite` and, for decimals, `ofScientific_of_roundsTo`.
-/

namespace LoadReplay.Number

open Float.Model Float.Model.UnpackedFloat

/-! ## Mantissas with two more bits -/

/-- The greatest multiple of one half that a mantissa with its round bit says is not exceeded. -/
def halves (em : ExtendedMantissa) : Rat := em.mantissa + if em.roundBit then 1 / 2 else 0

/-- Whether a mantissa with its round bit and its sticky bit stands for a number.  The sticky bit
says whether the number lies beyond the halves. -/
def Stands (em : ExtendedMantissa) (x : Rat) : Prop :=
  if em.stickyBit then halves em < x ∧ x < halves em + 1 / 2 else x = halves em

/-- Whether a whole number is nearest to a number, and even if another one is as near. -/
structure IsNearest (x : Rat) (n : Nat) : Prop where
  low : n - 1 / 2 ≤ x
  high : x ≤ n + 1 / 2
  tie : x = n - 1 / 2 ∨ x = n + 1 / 2 → n % 2 = 0

/-- There is one nearest number, ties going to the even one. -/
theorem IsNearest.unique {x : Rat} {n k : Nat} (hn : IsNearest x n) (hk : IsNearest x k) :
    n = k := by
  by_contra hne
  wlog hlt : n < k generalizing n k
  · exact this hk hn (Ne.symm hne) (by omega)
  have hstep : (n : Rat) + 1 ≤ k := by exact_mod_cast hlt
  have hhigh := hn.high
  have hlow := hk.low
  -- Both are as near as the other, and so they are neighbours that are even.
  have hkn : (k : Rat) = n + 1 := by linarith
  have hnext : k = n + 1 := by exact_mod_cast hkn
  have heven := hn.tie (Or.inr (by linarith))
  have heven' := hk.tie (Or.inl (by linarith))
  omega

section Bits

variable {em : ExtendedMantissa} {x : Rat}

/-- A mantissa is what it stands for, rounded down. -/
theorem Stands.bounds (h : Stands em x) : em.mantissa ≤ x ∧ x < em.mantissa + 1 := by
  unfold Stands halves at h
  split_ifs at h <;> constructor <;> linarith

/-- Half of it stands for half of what it stood for. -/
theorem Stands.shiftRightOne (h : Stands em x) : Stands em.shiftRightOne (x / 2) := by
  have hhalf : halves em.shiftRightOne = (em.mantissa : Rat) / 2 := by
    have hm : ((2 * (em.mantissa / 2) + em.mantissa % 2 : Nat) : Rat) = em.mantissa :=
      congrArg Nat.cast (Nat.div_add_mod em.mantissa 2)
    push_cast at hm
    rcases Nat.mod_two_eq_zero_or_one em.mantissa with hmod | hmod <;>
      simp only [halves, ExtendedMantissa.shiftRightOne, hmod] at hm ⊢ <;> norm_num at hm ⊢ <;>
      linarith
  have hsticky : em.shiftRightOne.stickyBit = (em.roundBit || em.stickyBit) := rfl
  obtain ⟨hlow, hhigh⟩ := h.bounds
  unfold Stands halves at h
  rw [Stands, hsticky, hhalf]
  cases hr : em.roundBit <;> cases hs : em.stickyBit <;> simp only [hr, hs] at h ⊢ <;>
    norm_num at h ⊢
  all_goals first | exact ⟨by linarith, by linarith⟩ | linarith

/-- Shifting by some places divides by that power of two. -/
theorem Stands.shiftRight (h : Stands em x) (k : Nat) : Stands (em >>> k) (x / 2 ^ k) := by
  induction k with
  | zero =>
    rw [pow_zero, div_one]
    exact h
  | succ k ih =>
    rw [pow_succ, ← div_div]
    exact ih.shiftRightOne

/-- Rounding a mantissa by its two bits gives the nearest one. -/
theorem Stands.isNearest (h : Stands em x) : IsNearest x em.roundedMantissa := by
  obtain ⟨m, r, s⟩ := em
  unfold Stands halves at h
  -- The two flags tell where `x` lies: on the mantissa, below, at or above the half.
  cases r <;> cases s <;> norm_num at h
  case false.false =>
    show IsNearest x m
    refine ⟨by linarith, by linarith, ?_⟩
    rintro (htie | htie) <;> linarith
  case false.true =>
    show IsNearest x m
    refine ⟨by linarith, by linarith, ?_⟩
    rintro (htie | htie) <;> linarith
  case true.false =>
    show IsNearest x (m + m % 2)
    rcases Nat.mod_two_eq_zero_or_one m with hmod | hmod
    · rw [hmod, Nat.add_zero]
      exact ⟨by linarith, by linarith, fun _ => hmod⟩
    · rw [hmod]
      refine ⟨?_, ?_, fun _ => by omega⟩ <;> push_cast <;> linarith
  case true.true =>
    show IsNearest x (m + 1)
    refine ⟨?_, ?_, ?_⟩
    · push_cast
      linarith
    · push_cast
      linarith
    · push_cast
      rintro (htie | htie) <;> linarith

end Bits

/-! ## The numbers that round to a value -/

/-- Whether a significand and an exponent are those of a finite value that is not zero. -/
structure IsCanonical (m : Nat) (e : Int) : Prop where
  pos : 0 < m
  lt : m < 2 ^ 53
  least : -1074 ≤ e
  greatest : e ≤ 971
  normal : e = -1074 ∨ 2 ^ 52 ≤ m

/-- Half of the gap between a value and the next smaller one, in quarters of `2 ^ e`.  The gap below
a power of two is half the gap above it, except at the least exponent. -/
def gapBelow (m : Nat) (e : Int) : Nat := if m = 2 ^ 52 ∧ e ≠ -1074 then 1 else 2

/-- Whether a number rounds to `m · 2 ^ e`: it lies between the middles of the two gaps beside that
value, and at neither of them if the significand is odd. -/
structure RoundsTo (v : Rat) (m : Nat) (e : Int) : Prop where
  lower : (4 * m - gapBelow m e) * 2 ^ (e - 2) ≤ v
  upper : v ≤ (4 * m + 2) * 2 ^ (e - 2)
  inner : m % 2 = 1 → (4 * m - gapBelow m e) * 2 ^ (e - 2) < v ∧ v < (4 * m + 2) * 2 ^ (e - 2)

/-- The gap below a mantissa is no greater than the one above. -/
theorem gapBelow_le (m : Nat) (e : Int) : (gapBelow m e : Rat) ≤ 2 := by
  unfold gapBelow
  split <;> norm_num

theorem two_zpow_pos (e : Int) : (0 : Rat) < 2 ^ e := zpow_pos two_pos e

theorem two_zpow_add (e : Int) (n : Nat) : (2 : Rat) ^ (e + n) = 2 ^ n * 2 ^ e := by
  rw [zpow_add₀ two_ne_zero, zpow_natCast, mul_comm]

/-- A power with a greater exponent, as a multiple of one with a smaller exponent. -/
theorem two_zpow_of_eq {a b : Int} {n : Nat} (h : a = b + n) : (2 : Rat) ^ a = 2 ^ n * 2 ^ b := by
  rw [h, two_zpow_add]

theorem two_zpow_eq (e : Int) : (2 : Rat) ^ e = 4 * 2 ^ (e - 2) := by
  rw [two_zpow_of_eq (show e = e - 2 + (2 : Nat) by omega)]
  norm_num

/-- A greater power of two has a greater exponent. -/
theorem lt_of_two_zpow_lt {a b : Int} (h : (2 : Rat) ^ a < 2 ^ b) : a < b :=
  (zpow_lt_zpow_iff_right₀ one_lt_two).1 h

/-- Three binary places are less than a decimal one, -/
theorem two_zpow_le_ten_zpow {k : Int} (hk : 0 ≤ k) : (2 : Rat) ^ (3 * k) ≤ 10 ^ k := by
  rw [zpow_mul]
  exact zpow_le_zpow_left₀ hk (by norm_num) (by norm_num)

/-- and so they are below the point. -/
theorem ten_zpow_le_two_zpow {k : Int} (hk : k ≤ 0) : (10 : Rat) ^ k ≤ 2 ^ (3 * k) := by
  have hpower := two_zpow_le_ten_zpow (k := -k) (by omega)
  rw [mul_neg, zpow_neg, zpow_neg] at hpower
  exact (inv_le_inv₀ (two_zpow_pos _) (by positivity)).1 hpower

section Rounding

variable {n m : Nat} {k e t : Int} {x v : Rat} {acc : Accuracy} {s : Sign}

/-- The exponent that a mantissa is shifted to. -/
def targetExponent (n : Nat) (k : Int) : Int := max (n.log2 + k - 52) (-1074)

/-- A mantissa is shifted until it has its digits, or its exponent is the least one. -/
theorem shiftToTargetExponent_eq (n : Nat) (k : Int) (acc : Accuracy) :
    shiftToTargetExponent Format.binary64 n k acc =
      (ExtendedMantissa.ofMantissaAndAccuracy n acc >>> (targetExponent n k - k).toNat,
        k + (targetExponent n k - k).toNat) := by
  have htarget : Format.binary64.targetExponent (totalExponent n k) = targetExponent n k := by
    have hsum : (n.log2 + 1 + k : Int) - 53 = n.log2 + k - 52 := by omega
    rw [targetExponent, ← hsum]
    rfl
  rw [← htarget]
  rfl

/-- A number that was not shifted stands for itself. -/
theorem Stands.exact (n : Nat) :
    Stands (ExtendedMantissa.ofMantissaAndAccuracy n .exact) n := by
  show (n : Rat) = n + 0
  rw [add_zero]

/-- A mantissa that is short enough is not shifted. -/
theorem shiftToTargetExponent_of_lt (hm : m < 2 ^ 53) (he : -1074 ≤ e) :
    shiftToTargetExponent Format.binary64 m e .exact = (⟨m, false, false⟩, e) := by
  have hlog : m.log2 ≤ 52 := by
    rcases Nat.eq_zero_or_pos m with rfl | hpos
    · decide
    · exact Nat.le_of_lt_succ ((Nat.log2_lt hpos.ne').2 hm)
  have hshift : (targetExponent m e - e).toNat = 0 := by
    unfold targetExponent
    omega
  rw [shiftToTargetExponent_eq, hshift]
  simp only [Nat.cast_zero, add_zero]
  rfl

/-- A mantissa that was rounded up to the next power of two is shifted once. -/
theorem shiftToTargetExponent_carry (he : -1074 ≤ e) :
    shiftToTargetExponent Format.binary64 (2 ^ 53) e .exact = (⟨2 ^ 52, false, false⟩, e + 1) := by
  have hshift : (targetExponent (2 ^ 53) e - e).toNat = 1 := by
    rw [targetExponent, Nat.log2_two_pow]
    omega
  rw [shiftToTargetExponent_eq, hshift]
  rfl

/-- What a mantissa stands for has as many digits as it. -/
theorem Stands.lt_two_pow (hst : Stands (ExtendedMantissa.ofMantissaAndAccuracy n acc) x) :
    n ≤ x ∧ x < 2 ^ (n.log2 + 1) := by
  have hm : (ExtendedMantissa.ofMantissaAndAccuracy n acc).mantissa = n := by
    rcases acc with _ | o
    · rfl
    · cases o <;> rfl
  have hbounds := hst.bounds
  rw [hm] at hbounds
  have hlog : ((n + 1 : Nat) : Rat) ≤ 2 ^ (n.log2 + 1) := by
    exact_mod_cast Nat.succ_le_of_lt (Nat.lt_log2_self (n := n))
  push_cast at hlog
  exact ⟨hbounds.1, hbounds.2.trans_le hlog⟩

/-- A number takes no more digits than there are behind its target exponent. -/
theorem Stands.div_lt (hst : Stands (ExtendedMantissa.ofMantissaAndAccuracy n acc) x) :
    x * 2 ^ k / 2 ^ targetExponent n k < 2 ^ 53 := by
  have hexponent : (n.log2 : Int) + 1 + k ≤ targetExponent n k + 53 := by
    unfold targetExponent
    omega
  rw [div_lt_iff₀ (two_zpow_pos _)]
  calc
    x * 2 ^ k < 2 ^ (n.log2 + 1) * 2 ^ k :=
      mul_lt_mul_of_pos_right hst.lt_two_pow.2 (two_zpow_pos k)
    _ = 2 ^ (k + (n.log2 + 1 : Nat)) := (two_zpow_add _ _).symm
    _ ≤ 2 ^ (targetExponent n k + (53 : Nat)) :=
      zpow_le_zpow_right₀ one_le_two (by push_cast; omega)
    _ = 2 ^ 53 * 2 ^ targetExponent n k := two_zpow_add _ _

/-- Rounding takes two shifts; the second one does something only if the first one has rounded up to
the next power of two. -/
theorem roundWithAccuracy_eq (s : Sign) (hk : k ≤ targetExponent n k)
    (hst : Stands (ExtendedMantissa.ofMantissaAndAccuracy n acc) x) :
    ∃ r, IsNearest (x * 2 ^ k / 2 ^ targetExponent n k) r ∧ r ≤ 2 ^ 53 ∧
      roundWithAccuracy Format.binary64 s n k acc =
        if h : r = 0 then .zero s
        else if r < 2 ^ 53 then .finite s r (targetExponent n k) (Nat.pos_of_ne_zero h)
        else .finite s (2 ^ 52) (targetExponent n k + 1) (Nat.two_pow_pos 52) := by
  have hshift : k + ((targetExponent n k - k).toNat : Int) = targetExponent n k := by omega
  have hfirst := shiftToTargetExponent_eq n k acc
  rw [hshift] at hfirst
  have hnear := (hst.shiftRight (targetExponent n k - k).toNat).isNearest
  have hvalue : x / 2 ^ (targetExponent n k - k).toNat = x * 2 ^ k / 2 ^ targetExponent n k := by
    rw [← hshift, two_zpow_add, mul_div_mul_right _ _ (two_zpow_pos k).ne', hshift]
  rw [hvalue] at hnear
  have hleast : -1074 ≤ targetExponent n k := le_max_right _ _
  -- Only the rounded mantissa counts from here on.
  generalize (ExtendedMantissa.ofMantissaAndAccuracy n acc >>>
    (targetExponent n k - k).toNat) = em at hfirst hnear
  have hle : em.roundedMantissa ≤ 2 ^ 53 := by
    have hlow := hnear.low
    have hlt := hst.div_lt (k := k)
    have hcast : (em.roundedMantissa : Rat) < (2 ^ 53 + 1 : Nat) := by
      push_cast
      linarith
    exact Nat.le_of_lt_succ (by exact_mod_cast hcast)
  refine ⟨em.roundedMantissa, hnear, hle, ?_⟩
  unfold roundWithAccuracy
  rw [hfirst]
  dsimp only
  generalize em.roundedMantissa = r at hle
  -- Rounding up can carry into one more bit, and then the exponent is one greater.
  rcases Nat.lt_or_eq_of_le hle with hlt | rfl
  · simp only [shiftToTargetExponent_of_lt hlt hleast, hlt, if_true]
  · simp only [shiftToTargetExponent_carry hleast]
    norm_num

/-! ### Rounding to a given value -/

namespace RoundsTo

/-- What rounds to a canonical mantissa is bounded above by its exponent. -/
theorem lt (hc : IsCanonical m e) (hv : RoundsTo v m e) : v < 2 ^ (e + 53) := by
  have hm : (m : Rat) + 1 ≤ 2 ^ 53 := by exact_mod_cast hc.lt
  rw [two_zpow_of_eq (show e + 53 = e - 2 + (55 : Nat) by omega)]
  refine hv.upper.trans_lt (mul_lt_mul_of_pos_right ?_ (two_zpow_pos _))
  linarith

/-- It is bounded below by its exponent, unless that is the least one. -/
theorem gt (hc : IsCanonical m e) (hv : RoundsTo v m e) (he : e ≠ -1074) : 2 ^ (e + 51) < v := by
  have hm : (2 : Rat) ^ 52 ≤ m := by exact_mod_cast hc.normal.resolve_left he
  have hgap := gapBelow_le m e
  rw [two_zpow_of_eq (show e + 51 = e - 2 + (53 : Nat) by omega)]
  refine (mul_lt_mul_of_pos_right ?_ (two_zpow_pos _)).trans_le hv.lower
  linarith

/-- It is at least half of the least number. -/
theorem ge (hc : IsCanonical m e) (hv : RoundsTo v m e) : 2 ^ (-1075 : Int) ≤ v := by
  have hm : (1 : Rat) ≤ m := by exact_mod_cast hc.pos
  have hgap := gapBelow_le m e
  have hleast : (2 : Rat) ^ (-1076 : Int) ≤ 2 ^ (e - 2) :=
    zpow_le_zpow_right₀ one_le_two (by have := hc.least; omega)
  rw [two_zpow_of_eq (show (-1075 : Int) = -1076 + (1 : Nat) by norm_num)]
  refine le_trans ?_ hv.lower
  exact mul_le_mul (by linarith) hleast (two_zpow_pos _).le (by linarith)

/-- A number that rounds to a value is nearest to its significand at its exponent. -/
theorem isNearest (hv : RoundsTo v m e) : IsNearest (v / 2 ^ e) m := by
  have hpos := two_zpow_pos (e - 2)
  have hgap := mul_le_mul_of_nonneg_right (gapBelow_le m e) hpos.le
  have hlower := hv.lower
  have hupper := hv.upper
  rw [two_zpow_eq e]
  refine ⟨?_, ?_, fun htie => ?_⟩
  · rw [le_div_iff₀ (by positivity)]
    linarith
  · rw [div_le_iff₀ (by positivity)]
    linarith
  · by_contra hodd
    obtain ⟨hlow, hhigh⟩ := hv.inner (by omega)
    rw [div_eq_iff (by positivity), div_eq_iff (by positivity)] at htie
    rcases htie with htie | htie <;> linarith

/-- A number below a power of two that rounds to that power is nearest to it at the exponent below
as well. -/
theorem isNearest_below (hc : IsCanonical m e) (hv : RoundsTo v m e) (he : e ≠ -1074)
    (hlt : v < 2 ^ (e + 52)) : m = 2 ^ 52 ∧ IsNearest (v / 2 ^ (e - 1)) (2 ^ 53) := by
  have hnormal : 2 ^ 52 ≤ m := hc.normal.resolve_left he
  have hpos := two_zpow_pos (e - 2)
  have hgap := gapBelow_le m e
  rw [two_zpow_of_eq (show e + 52 = e - 2 + (54 : Nat) by omega)] at hlt
  have hlower := hv.lower
  have hm : m = 2 ^ 52 := by
    by_contra hne
    have hnext : (2 : Rat) ^ 52 + 1 ≤ m := by
      exact_mod_cast Nat.succ_le_of_lt (Nat.lt_of_le_of_ne hnormal (Ne.symm hne))
    have hbelow := lt_of_mul_lt_mul_right (hlower.trans_lt hlt) hpos.le
    linarith
  subst hm
  have hgap : gapBelow (2 ^ 52) e = 1 := if_pos ⟨rfl, he⟩
  have hunit : (2 : Rat) ^ (e - 1) = 2 ^ 1 * 2 ^ (e - 2) :=
    two_zpow_of_eq (show e - 1 = e - 2 + (1 : Nat) by omega)
  rw [hgap] at hlower
  push_cast at hlower
  refine ⟨rfl, ?_, ?_, fun _ => by norm_num⟩
  · rw [hunit, le_div_iff₀ (by positivity)]
    push_cast
    linarith
  · rw [hunit, div_le_iff₀ (by positivity)]
    push_cast
    linarith

/-- No number that rounds to a value reaches the power of ten above all values. -/
theorem lt_of_ten_zpow_le (hc : IsCanonical m e) (hv : RoundsTo v m e) (h : 10 ^ t ≤ v) :
    t < 342 := by
  by_contra hle
  have hexponent := lt_of_two_zpow_lt (calc
    (2 : Rat) ^ (3 * t) ≤ 10 ^ t := two_zpow_le_ten_zpow (by omega)
    _ ≤ v := h
    _ < 2 ^ (e + 53) := hv.lt hc)
  have hgreatest := hc.greatest
  omega

/-- No number that rounds to a value is below the power of ten below all values. -/
theorem gt_of_lt_ten_zpow (hc : IsCanonical m e) (hv : RoundsTo v m e) (h : v < 10 ^ t) :
    -359 < t := by
  by_contra hle
  have hexponent := lt_of_two_zpow_lt (calc
    (2 : Rat) ^ (-1075 : Int) ≤ v := hv.ge hc
    _ < 10 ^ t := h
    _ ≤ 2 ^ (3 * t) := ten_zpow_le_two_zpow (by omega))
  omega

end RoundsTo

/-- A number that rounds to a value has that value's exponent, or the one below it. -/
theorem targetExponent_cases (hk : k ≤ targetExponent n k)
    (hst : Stands (ExtendedMantissa.ofMantissaAndAccuracy n acc) x) (hc : IsCanonical m e)
    (hv : RoundsTo (x * 2 ^ k) m e) :
    targetExponent n k = e ∨ targetExponent n k = e - 1 ∧ e ≠ -1074 := by
  obtain ⟨hlow, hhigh⟩ := hst.lt_two_pow
  have hleast := hc.least
  -- Not above `e`, as `x` is below the next power of two.
  have hle : targetExponent n k ≤ e := by
    rcases Nat.eq_zero_or_pos n with rfl | hpos
    · have hlog : Nat.log2 0 = 0 := by decide
      unfold targetExponent at hk ⊢
      omega
    · have hlog : (2 : Rat) ^ n.log2 ≤ x :=
        le_trans (by exact_mod_cast Nat.log2_self_le hpos.ne') hlow
      have hlt : (2 : Rat) ^ (k + n.log2) < 2 ^ (e + 53) := by
        rw [two_zpow_add]
        exact (mul_le_mul_of_nonneg_right hlog (two_zpow_pos k).le).trans_lt (hv.lt hc)
      have hexponent := lt_of_two_zpow_lt hlt
      unfold targetExponent
      omega
  -- And at most one below it, as rounding may have carried; at the least exponent there is no room
  -- for that.
  rcases eq_or_ne e (-1074) with rfl | he
  · left
    unfold targetExponent at hle ⊢
    omega
  · have hlt : (2 : Rat) ^ (e + 51) < 2 ^ (k + (n.log2 + 1 : Nat)) := by
      rw [two_zpow_add]
      exact (hv.gt hc he).trans (mul_lt_mul_of_pos_right hhigh (two_zpow_pos k))
    have hexponent := lt_of_two_zpow_lt hlt
    unfold targetExponent at hle ⊢
    omega

/-- Rounding gives the value that a number rounds to. -/
theorem roundWithAccuracy_of_roundsTo (s : Sign) (hk : k ≤ targetExponent n k)
    (hst : Stands (ExtendedMantissa.ofMantissaAndAccuracy n acc) x) (hc : IsCanonical m e)
    (hv : RoundsTo (x * 2 ^ k) m e) :
    roundWithAccuracy Format.binary64 s n k acc = .finite s m e hc.pos := by
  obtain ⟨r, hnear, -, hround⟩ := roundWithAccuracy_eq s hk hst
  rw [hround]
  rcases targetExponent_cases hk hst hc hv with ht | ⟨ht, he⟩
  · rw [ht] at hnear
    obtain rfl := hnear.unique hv.isNearest
    rw [dif_neg hc.pos.ne', if_pos hc.lt]
    simp only [ht]
  · have hlt : x * 2 ^ k < 2 ^ (e + 52) := by
      rw [two_zpow_of_eq (show e + 52 = targetExponent n k + (53 : Nat) by omega)]
      exact (div_lt_iff₀ (two_zpow_pos _)).1 hst.div_lt
    obtain ⟨rfl, hnear'⟩ := hv.isNearest_below hc he hlt
    rw [ht] at hnear
    obtain rfl := hnear.unique hnear'
    simp only [ht, sub_add_cancel]
    norm_num

end Rounding

/-! ## Products and quotients -/

section Operations

variable {m m₁ m₂ n : Nat} {e e₁ e₂ : Int} {h₁ : 0 < m₁} {h₂ : 0 < m₂}

/-- A value rounds to itself. -/
theorem roundsTo_self (m : Nat) (e : Int) : RoundsTo (m * 2 ^ e) m e := by
  have hgap : (0 : Rat) < gapBelow m e := by
    unfold gapBelow
    split <;> norm_num
  have hpos := two_zpow_pos (e - 2)
  have hbelow : (4 * m - gapBelow m e) * 2 ^ (e - 2) < (m * 2 ^ e : Rat) := by
    have hless := mul_pos hgap hpos
    rw [two_zpow_eq e]
    linarith
  have habove : (m * 2 ^ e : Rat) < (4 * m + 2) * 2 ^ (e - 2) := by
    rw [two_zpow_eq e]
    linarith
  exact ⟨hbelow.le, habove.le, fun _ => ⟨hbelow, habove⟩⟩

/-- Places that are added below a number raise its logarithm by their count. -/
theorem log2_mul_two_pow (hm : 0 < m) (k : Nat) : (m * 2 ^ k).log2 = m.log2 + k := by
  rw [Nat.log2_eq_iff (by positivity)]
  have hlow := Nat.mul_le_mul_right (2 ^ k) (Nat.log2_self_le hm.ne')
  have hhigh := Nat.mul_lt_mul_of_pos_right (Nat.lt_log2_self (n := m)) (Nat.two_pow_pos k)
  rw [← pow_add] at hlow hhigh
  rw [Nat.add_right_comm]
  exact ⟨hlow, hhigh⟩

/-- Whether an unpacked value is what a number is rounded to. -/
def IsRounded (s : Sign) (v : Rat) (u : UnpackedFloat) : Prop :=
  ∃ n k acc x, k ≤ targetExponent n k ∧ Stands (ExtendedMantissa.ofMantissaAndAccuracy n acc) x ∧
    x * 2 ^ k = v ∧ u = roundWithAccuracy Format.binary64 s n k acc

/-- What rounds to a canonical mantissa is rounded to it, and to nothing else. -/
theorem IsRounded.eq_finite {s : Sign} {v : Rat} {u : UnpackedFloat} (h : IsRounded s v u)
    (hc : IsCanonical m e) (hv : RoundsTo v m e) : u = .finite s m e hc.pos := by
  obtain ⟨n, k, acc, x, hk, hst, rfl, rfl⟩ := h
  exact roundWithAccuracy_of_roundsTo s hk hst hc hv

/-- A mantissa that is too short is made longer before it is rounded. -/
theorem round_isRounded (s : Sign) (hm : 0 < m) (e : Int) :
    IsRounded s (m * 2 ^ e) (UnpackedFloat.round Format.binary64 s m e) := by
  obtain ⟨t, ht⟩ : ∃ t, t = max ((m.log2 : Int) + e - 52) (-1074) := ⟨_, rfl⟩
  have htarget : Format.binary64.targetExponent (totalExponent m e) = t := by
    have hmax : Format.binary64.targetExponent (totalExponent m e) =
      max ((m.log2 + 1 + e : Int) - 53) (-1074) := rfl
    omega
  refine ⟨m * 2 ^ (e - t).toNat, e - (e - t).toNat, .exact, _, ?_, Stands.exact _, ?_, ?_⟩
  · unfold targetExponent
    rw [log2_mul_two_pow hm]
    omega
  · rw [two_zpow_of_eq (show e = e - (e - t).toNat + (e - t).toNat by omega)]
    push_cast
    ring
  · show roundWithAccuracy Format.binary64 s _ _ _ = _
    rw [htarget, Nat.shiftLeft_eq]

/-- A mantissa of any size is rounded when it is normalized. -/
theorem normalize_isRounded (hm : 0 < m) (e : Int) :
    IsRounded .positive (m * 2 ^ e)
      (UnpackedFloat.normalize Format.binary64 m e .positive) := by
  have hcompare : compare (m : Int) 0 = .gt := Int.compare_eq_gt.2 (by exact_mod_cast hm)
  unfold UnpackedFloat.normalize
  rw [hcompare]
  exact round_isRounded .positive hm e

/-- A product is rounded, if its factors have digits enough. -/
theorem mul_isRounded (s₁ s₂ : Sign) (hk : e₁ + e₂ ≤ targetExponent (m₁ * m₂) (e₁ + e₂)) :
    IsRounded (s₁ * s₂) (m₁ * 2 ^ e₁ * (m₂ * 2 ^ e₂))
      (mul Format.binary64 (.finite s₁ m₁ e₁ h₁) (.finite s₂ m₂ e₂ h₂)) := by
  refine ⟨m₁ * m₂, e₁ + e₂, .exact, _, hk, Stands.exact _, ?_, rfl⟩
  rw [zpow_add₀ two_ne_zero]
  push_cast
  ring

/-- A whole number with the accuracy of a fraction stands for their sum. -/
theorem Stands.add_fraction (q : Nat) {r den : Nat} (hlt : r < den) :
    Stands (ExtendedMantissa.ofMantissaAndAccuracy q (accuracyOfFraction r den)) (q + r / den) := by
  have hpos : (0 : Rat) < den := by exact_mod_cast Nat.zero_lt_of_lt hlt
  unfold accuracyOfFraction
  split
  case isTrue hzero =>
    rw [hzero, Nat.cast_zero, zero_div, add_zero]
    exact Stands.exact q
  case isFalse hzero =>
    have hr : (0 : Rat) < r := by exact_mod_cast Nat.pos_of_ne_zero hzero
    have hr' : 0 < (r : Rat) / den := div_pos hr hpos
    have hone : (r : Rat) / den < 1 := (div_lt_one hpos).2 (by exact_mod_cast hlt)
    -- Twice the remainder against the divisor tells on which side of the half the fraction lies.
    cases hcompare : compare (2 * r) den with
    | lt =>
      have hhalf : (2 * r : Rat) < den := by exact_mod_cast Nat.compare_eq_lt.1 hcompare
      have hbelow : (r : Rat) / den < 1 / 2 := by
        rw [div_lt_iff₀ hpos]
        linarith
      show (q : Rat) + 0 < q + r / den ∧ q + r / den < (q : Rat) + 0 + 1 / 2
      constructor <;> linarith
    | eq =>
      have hhalf : (2 * r : Rat) = den := by exact_mod_cast Nat.compare_eq_eq.1 hcompare
      show (q : Rat) + r / den = q + 1 / 2
      rw [← hhalf, div_mul_cancel_right₀ hr.ne', one_div]
    | gt =>
      have hhalf : (den : Rat) < 2 * r := by exact_mod_cast Nat.compare_eq_gt.1 hcompare
      have habove : 1 / 2 < (r : Rat) / den := by
        rw [lt_div_iff₀ hpos]
        linarith
      show (q : Rat) + 1 / 2 < q + r / den ∧ q + r / den < (q : Rat) + 1 / 2 + 1 / 2
      constructor <;> linarith

/-- A whole quotient with the accuracy that its remainder gives stands for the quotient. -/
theorem Stands.fraction (num : Nat) {den : Nat} (hden : 0 < den) :
    Stands (ExtendedMantissa.ofMantissaAndAccuracy (num / den)
      (accuracyOfFraction (num % den) den)) (num / den) := by
  have hpos : (0 : Rat) < den := by exact_mod_cast hden
  have hdiv : (num : Rat) = den * (num / den : Nat) + (num % den : Nat) := by
    exact_mod_cast (Nat.div_add_mod num den).symm
  have hquotient : (num : Rat) / den = (num / den : Nat) + (num % den : Nat) / (den : Rat) := by
    rw [hdiv, add_div, mul_div_cancel_left₀ _ hpos.ne']
  rw [hquotient]
  exact Stands.add_fraction _ (Nat.mod_lt num hden)

/-- A quotient of enough digits has all that a significand has. -/
theorem le_log2_div {a b k : Nat} (hb : 0 < b) (h : b.log2 + k + 1 ≤ a.log2) :
    k ≤ (a / b).log2 := by
  have ha : a ≠ 0 := by
    rintro rfl
    simp at h
  have hle : 2 ^ k * b ≤ a := calc
    2 ^ k * b ≤ 2 ^ k * 2 ^ (b.log2 + 1) := Nat.mul_le_mul_left _ (Nat.lt_log2_self (n := b)).le
    _ = 2 ^ (b.log2 + k + 1) := by rw [← pow_add]; congr 1; omega
    _ ≤ 2 ^ a.log2 := Nat.pow_le_pow_right two_pos h
    _ ≤ a := Nat.log2_self_le ha
  have hquotient := (Nat.le_div_iff_mul_le hb).2 hle
  exact (Nat.le_log2 (Nat.ne_of_gt (Nat.lt_of_lt_of_le (Nat.two_pow_pos k) hquotient))).2 hquotient

/-- A quotient is rounded. -/
theorem div_isRounded (s₁ s₂ : Sign) :
    IsRounded (s₁ / s₂) (m₁ * 2 ^ e₁ / (m₂ * 2 ^ e₂))
      (div Format.binary64 (.finite s₁ m₁ e₁ h₁) (.finite s₂ m₂ e₂ h₂)) := by
  -- The quotient is taken at the exponent `k`, which leaves it enough digits.
  obtain ⟨k, hkdef⟩ : ∃ k, k = min (e₁ - e₂)
    (Format.binary64.targetExponent (totalExponent m₁ e₁ - totalExponent m₂ e₂)) := ⟨_, rfl⟩
  have htarget : Format.binary64.targetExponent (totalExponent m₁ e₁ - totalExponent m₂ e₂) =
      max ((m₁.log2 + 1 + e₁ : Int) - (m₂.log2 + 1 + e₂) - 53) (-1074) := rfl
  rw [htarget] at hkdef
  have hlog := log2_mul_two_pow h₁ (e₁ - e₂ - k).toNat
  refine ⟨m₁ * 2 ^ (e₁ - e₂ - k).toNat / m₂, k, _, _, ?_, Stands.fraction _ h₂, ?_, ?_⟩
  · rcases le_or_gt k (-1074) with hleast | hnormal
    · exact hleast.trans (le_max_right _ _)
    · have hdigits := le_log2_div (a := m₁ * 2 ^ (e₁ - e₂ - k).toNat) (k := 52) h₂ (by omega)
      unfold targetExponent
      omega
  · rw [two_zpow_of_eq (show e₁ = k + e₂ + (e₁ - e₂ - k).toNat by omega), zpow_add₀ two_ne_zero]
    have hnonzero := (two_zpow_pos e₂).ne'
    push_cast
    field_simp
  · show roundWithAccuracy Format.binary64 (s₁ / s₂) _ _ _ = _
    rw [htarget, ← hkdef, Nat.shiftLeft_eq]

/-- A count is rounded. -/
theorem ofNat_isRounded (hn : 0 < n) :
    IsRounded .positive n (UnpackedFloat.ofNat Format.binary64 n) := by
  have hround := normalize_isRounded hn 0
  rwa [zpow_zero, mul_one] at hround

/-- A count that is short enough is a value. -/
theorem ofNat_eq (hn : 0 < n) (hlt : n < 2 ^ 53) :
    ∃ m e, ∃ hc : IsCanonical m e, 2 ^ 52 ≤ m ∧ (m : Rat) * 2 ^ e = n ∧
      UnpackedFloat.ofNat Format.binary64 n = .finite .positive m e hc.pos := by
  have hlog : n.log2 ≤ 52 := Nat.le_of_lt_succ ((Nat.log2_lt hn.ne').2 hlt)
  have hpos : 0 < n * 2 ^ (52 - n.log2) := by positivity
  have hdigits : (n * 2 ^ (52 - n.log2)).log2 = 52 := by
    rw [log2_mul_two_pow hn]
    omega
  have hlow : 2 ^ 52 ≤ n * 2 ^ (52 - n.log2) := (Nat.le_log2 hpos.ne').1 hdigits.ge
  have hc : IsCanonical (n * 2 ^ (52 - n.log2)) (n.log2 - 52) :=
    ⟨hpos, (Nat.log2_lt hpos.ne').1 (by omega), by omega, by omega, Or.inr hlow⟩
  have hvalue : ((n * 2 ^ (52 - n.log2) : Nat) : Rat) * 2 ^ ((n.log2 : Int) - 52) = n := by
    have hexponent : (0 : Int) = n.log2 - 52 + (52 - n.log2 : Nat) := by omega
    push_cast
    rw [mul_assoc, ← two_zpow_add, ← hexponent, zpow_zero, mul_one]
  have hself := roundsTo_self (n * 2 ^ (52 - n.log2)) (n.log2 - 52)
  rw [hvalue] at hself
  exact ⟨_, _, hc, hlow, hvalue, (ofNat_isRounded hn).eq_finite hc hself⟩

/-- A decimal is rounded to the value that it rounds to. -/
theorem ofScientific_of_roundsTo {k : Int} (hn : 0 < n) (hc : IsCanonical m e)
    (hv : RoundsTo (n * 10 ^ k) m e) :
    UnpackedFloat.ofScientific Format.binary64 n k = .finite .positive m e hc.pos := by
  have hbits : (2 : Int) ^ Format.binary64.exponentBits = 2048 := rfl
  -- The exponent is neither so great nor so small that no power of ten is taken.
  have hgreat : ¬ k > 2 ^ Format.binary64.exponentBits := by
    have hone : (1 : Rat) ≤ n := by exact_mod_cast hn
    have hlt := hv.lt_of_ten_zpow_le hc (le_mul_of_one_le_left (by positivity) hone)
    omega
  have hsmall : ¬ k < -((2 ^ Format.binary64.exponentBits : Int) + n.log2) := by
    have hlog : (n : Rat) < 10 ^ (n.log2 + 1) := by
      exact_mod_cast Nat.lt_log2_self.trans_le (Nat.pow_le_pow_left (by norm_num) _)
    have hbelow : (n : Rat) * 10 ^ k < 10 ^ ((n.log2 + 1 : Nat) + k) := by
      rw [zpow_add₀ (by norm_num), zpow_natCast]
      exact mul_lt_mul_of_pos_right hlog (by positivity)
    have hlt := hv.gt_of_lt_ten_zpow hc hbelow
    omega
  unfold UnpackedFloat.ofScientific
  rw [dif_neg hn.ne', if_neg hgreat, if_neg hsmall]
  split
  case isTrue hk =>
    lift k to Nat using hk
    have hdigits : Format.binary64.mantissaBits = 53 := rfl
    refine (mul_isRounded .positive .positive ?_).eq_finite hc ?_
    · have hlog : 53 ≤ (n * 2 ^ 53 * 10 ^ k).log2 := by
        rw [Nat.le_log2 (by positivity)]
        calc
          2 ^ 53 ≤ n * 2 ^ 53 := Nat.le_mul_of_pos_left _ hn
          _ ≤ n * 2 ^ 53 * 10 ^ k := Nat.le_mul_of_pos_right _ (by positivity)
      rw [hdigits, Nat.shiftLeft_eq, Int.toNat_natCast, targetExponent]
      omega
    · have hvalue : ((n * 2 ^ 53 : Nat) : Rat) * 2 ^ (-(53 : Nat) : Int) *
          ((10 ^ k : Nat) * 2 ^ (0 : Int)) = n * 10 ^ (k : Int) := by
        rw [zpow_natCast, zpow_zero, zpow_neg, zpow_natCast]
        push_cast
        field_simp
        norm_num
      rwa [hdigits, Nat.shiftLeft_eq, Int.toNat_natCast, hvalue]
  case isFalse hk =>
    refine (div_isRounded .positive .positive).eq_finite hc ?_
    have hvalue : (n : Rat) * 2 ^ (0 : Int) / ((10 ^ (-k).toNat : Nat) * 2 ^ (0 : Int)) =
        n * 10 ^ k := by
      have hexponent : k = -((-k).toNat : Int) := by omega
      conv_rhs => rw [hexponent, zpow_neg, zpow_natCast]
      rw [zpow_zero, mul_one, mul_one, div_eq_mul_inv]
      push_cast
      rfl
    exact hvalue ▸ hv

end Operations

end LoadReplay.Number
