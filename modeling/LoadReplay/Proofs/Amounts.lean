import LoadReplay.Proofs.Binary64
import LoadReplay.Span.Basic

/-!
# Amounts

An amount is a number that is finite and not negative.  Sums, products and quotients of amounts are
amounts as long as they are not too great, and they are near to the exact results.  How near does
not matter here: within a factor of two, up to a little `slack` for results that are too small to
have all digits, is enough to know that an amount is finite and whether it is zero.

## Shape of the proof

What a number is rounded to is off by half a unit at most, and a unit is the least one or no more
than the number (`targetExponent_small`), so it is near to the number (`IsRounded.isNear`).  Each
operation distinguishes whether its operands are zero (`IsAmount.cases`).  Lengths of time are
small enough for all of this: `isAmount_seconds`, `isAmount_toMillis`.

Amounts that are ascending in the total order of all numbers are ascending by value
(`IsAmount.value_le`), because the bits of an amount are its exponent and its fraction.
-/

namespace LoadReplay.Number

open Float.Model Float.Model.UnpackedFloat

/-! ## Exact values -/

/-- The exact value of a finite number, and zero for the others. -/
def Parts.value : Parts → Rat
  | .finite negative m e => (if negative then -1 else 1) * (m * 2 ^ e)
  | _ => 0

/-- The exact value of a finite number, and zero for the others. -/
def value (x : Float) : Rat := (parts x).value

/-- Whether a number is finite and not negative. -/
def IsAmount (x : Float) : Prop := ∃ m e, parts x = .finite false m e

/-- By how much a result may be beyond the double of the exact result, or below its half. -/
def slack : Rat := 1 / 2 ^ 100

/-- Whether an amount is near to an exact result. -/
structure IsNear (v : Rat) (x : Float) : Prop where
  amount : IsAmount x
  low : v / 2 - slack ≤ value x
  high : value x ≤ 2 * v + slack

section Values

variable {x y : Float} {m n : Nat} {e : Int} {v : Rat}

/-- A number that is not negative is its mantissa times its power of two. -/
theorem value_of_parts (h : parts x = .finite false m e) : value x = m * 2 ^ e := by
  rw [value, h]
  exact one_mul _

/-- An amount is not negative. -/
theorem IsAmount.value_nonneg (h : IsAmount x) : 0 ≤ value x := by
  obtain ⟨m, e, h⟩ := h
  rw [value_of_parts h]
  positivity

/-- There is some room for rounding. -/
theorem slack_pos : 0 < slack := by
  unfold slack
  positivity

/-- Every amount is near its value. -/
theorem IsAmount.isNear (h : IsAmount x) : IsNear (value x) x := by
  have hvalue := h.value_nonneg
  have hslack := slack_pos
  exact ⟨h, by linarith, by linarith⟩

/-- An amount is zero, or has a significand. -/
theorem IsAmount.cases (h : IsAmount x) :
    (x.toModel.unpack = .zero .positive ∧ value x = 0) ∨
      ∃ m e, ∃ hc : IsCanonical m e, x.toModel.unpack = .finite .positive m e hc.pos ∧
        value x = m * 2 ^ e := by
  obtain ⟨m, e, h⟩ := h
  rw [value_of_parts h]
  rcases Nat.eq_zero_or_pos m with rfl | hm
  · left
    obtain rfl := exponent_of_parts_zero h
    refine ⟨Parts.ofUnpacked_injective ?_, by rw [Nat.cast_zero, zero_mul]⟩
    rw [← parts_eq, h]
    rfl
  · right
    exact ⟨m, e, isCanonical_of_parts h hm, unpack_of_parts h hm, rfl⟩

/-- A number is near what its parts make up. -/
theorem isNear_of_parts (h : parts x = .finite false m e) (hv : (m : Rat) * 2 ^ e = v) :
    IsNear v x := by
  have hamount : IsAmount x := ⟨m, e, h⟩
  rw [← hv, ← value_of_parts h]
  exact hamount.isNear

/-- Zero is near zero. -/
theorem isNear_zero : IsNear 0 (.ofModel (Float.Model.pack (.zero .positive))) :=
  isNear_of_parts (parts_ofModel_pack (u := .zero .positive) trivial) (by norm_num)

end Values

/-! ## Rounding -/

section Rounding

variable {n : Nat} {k : Int} {x v : Rat} {acc : Accuracy}

/-- The unit that a number is rounded to is the least one, or no more than the number. -/
theorem targetExponent_small (hk : k ≤ targetExponent n k)
    (hst : Stands (ExtendedMantissa.ofMantissaAndAccuracy n acc) x) :
    targetExponent n k = -1074 ∨ 2 ^ 52 * 2 ^ targetExponent n k ≤ x * 2 ^ k := by
  by_cases hleast : targetExponent n k = -1074
  · exact Or.inl hleast
  · right
    have hn : n ≠ 0 := by
      rintro rfl
      have hlog : Nat.log2 0 = 0 := by decide
      unfold targetExponent at hk hleast
      omega
    have hlog : (2 : Rat) ^ n.log2 ≤ x :=
      le_trans (by exact_mod_cast Nat.log2_self_le hn) hst.lt_two_pow.1
    have hexponent : targetExponent n k + (52 : Nat) = k + n.log2 := by
      unfold targetExponent at hleast ⊢
      omega
    rw [← two_zpow_add, two_zpow_of_eq hexponent]
    exact mul_le_mul_of_nonneg_right hlog (two_zpow_pos k).le

/-- What is not too great is rounded to an amount. -/
theorem exists_parts_of_rounded (hk : k ≤ targetExponent n k)
    (hst : Stands (ExtendedMantissa.ofMantissaAndAccuracy n acc) x) (hlt : x * 2 ^ k < 2 ^ 1000) :
    ∃ (r m : Nat) (e : Int), IsNearest (x * 2 ^ k / 2 ^ targetExponent n k) r ∧
      (m : Rat) * 2 ^ e = r * 2 ^ targetExponent n k ∧
      parts (.ofModel (Float.Model.pack
        (roundWithAccuracy Format.binary64 .positive n k acc))) = .finite false m e := by
  obtain ⟨r, hnear, hle, hround⟩ := roundWithAccuracy_eq .positive hk hst
  have hleast : -1074 ≤ targetExponent n k := le_max_right _ _
  have hsmall := targetExponent_small hk hst
  have hgreatest : targetExponent n k ≤ 970 := by
    rcases hsmall with hleast | hnormal
    · omega
    · rw [← two_zpow_add] at hnormal
      have hexponent : targetExponent n k + (52 : Nat) < 1000 :=
        lt_of_two_zpow_lt (hnormal.trans_lt (by exact_mod_cast hlt))
      omega
  -- From here on only the bounds on the target exponent count, not how it is found.
  generalize targetExponent n k = t at *
  rw [hround]
  split
  case isTrue hzero =>
    subst hzero
    exact ⟨0, 0, -1074, hnear, by rw [Nat.cast_zero, zero_mul, zero_mul],
      parts_ofModel_pack (u := .zero .positive) trivial⟩
  case isFalse hr =>
    have hpos := Nat.pos_of_ne_zero hr
    split
    case isTrue hsig =>
      -- Above the least exponent, rounding cannot bring the significand below 52 bits.
      have hnormal : t = -1074 ∨ 2 ^ 52 ≤ r := by
        refine hsmall.imp_right fun hnormal => ?_
        have hhigh := hnear.high
        have hlow : (2 : Rat) ^ 52 ≤ x * 2 ^ k / 2 ^ t := (le_div_iff₀ (two_zpow_pos t)).2 hnormal
        have hcast : ((2 ^ 52 : Nat) : Rat) < (r + 1 : Nat) := by
          push_cast
          linarith
        exact Nat.le_of_lt_succ (by exact_mod_cast hcast)
      have hpackable : IsPackable (.finite .positive r t hpos) :=
        ⟨hpos, hsig, hleast, by omega, hnormal⟩
      exact ⟨r, r, t, hnear, rfl, parts_ofModel_pack hpackable⟩
    case isFalse hcarry =>
      -- Rounding has carried into one more bit: the same value has half the significand.
      obtain rfl : r = 2 ^ 53 := by omega
      have hpackable : IsPackable (.finite .positive (2 ^ 52) (t + 1) (Nat.two_pow_pos 52)) :=
        ⟨Nat.two_pow_pos 52, by norm_num, by omega, by omega, Or.inr le_rfl⟩
      refine ⟨2 ^ 53, 2 ^ 52, t + 1, hnear, ?_, parts_ofModel_pack hpackable⟩
      rw [zpow_add_one₀ two_ne_zero]
      push_cast
      ring

/-- What a number is rounded to is near to it. -/
theorem IsRounded.isNear {u : UnpackedFloat} (h : IsRounded .positive v u) (hlt : v < 2 ^ 1000) :
    IsNear v (.ofModel (Float.Model.pack u)) := by
  obtain ⟨n, k, acc, x, hk, hst, rfl, rfl⟩ := h
  obtain ⟨r, m, e, hnear, hvalue, hparts⟩ := exists_parts_of_rounded hk hst hlt
  have hpos := two_zpow_pos (targetExponent n k)
  have hlow := hnear.low
  have hhigh := hnear.high
  rw [le_div_iff₀ hpos] at hlow
  rw [div_le_iff₀ hpos] at hhigh
  have hslack := slack_pos
  have hunit : (2 : Rat) ^ targetExponent n k ≤ x * 2 ^ k + slack := by
    have hx : 0 ≤ x * 2 ^ k :=
      mul_nonneg ((Nat.cast_nonneg n).trans hst.lt_two_pow.1) (two_zpow_pos k).le
    rcases targetExponent_small hk hst with hleast | hnormal
    · have hpower : (2 : Rat) ^ (-1074 : Int) ≤ 2 ^ (-100 : Int) :=
        zpow_le_zpow_right₀ one_le_two (by norm_num)
      have hslack' : (2 : Rat) ^ (-100 : Int) = slack := by
        rw [slack, zpow_neg, one_div]
        rfl
      rw [hleast]
      linarith
    · linarith
  refine ⟨⟨m, e, hparts⟩, ?_, ?_⟩ <;> rw [value_of_parts hparts, hvalue] <;> linarith

end Rounding

/-! ## Operations -/

section Operations

variable {x y : Float} {m₁ m₂ n : Nat} {e₁ e₂ : Int} {h₁ : 0 < m₁} {h₂ : 0 < m₂}

/-- A sum of positive numbers is rounded. -/
theorem add_isRounded : IsRounded .positive (m₁ * 2 ^ e₁ + m₂ * 2 ^ e₂)
    (UnpackedFloat.add Format.binary64 (.finite .positive m₁ e₁ h₁)
      (.finite .positive m₂ e₂ h₂)) := by
  have hmantissa : 0 < m₁ <<< (e₁ - min e₁ e₂).toNat + m₂ <<< (e₂ - min e₁ e₂).toNat := by
    rw [Nat.shiftLeft_eq, Nat.shiftLeft_eq]
    positivity
  have hshift (m : Nat) {e : Int} (he : min e₁ e₂ ≤ e) :
      ((m <<< (e - min e₁ e₂).toNat : Nat) : Rat) * 2 ^ min e₁ e₂ = m * 2 ^ e := by
    rw [Nat.shiftLeft_eq, two_zpow_of_eq (show e = min e₁ e₂ + (e - min e₁ e₂).toNat by omega)]
    push_cast
    ring
  have hround := normalize_isRounded hmantissa (min e₁ e₂)
  rw [Nat.cast_add, add_mul, hshift m₁ (min_le_left _ _), hshift m₂ (min_le_right _ _)] at hround
  show IsRounded .positive _ (UnpackedFloat.normalize Format.binary64
    ((m₁ <<< (e₁ - min e₁ e₂).toNat : Nat) + (m₂ <<< (e₂ - min e₁ e₂).toNat : Nat)) (min e₁ e₂)
    .positive)
  rwa [← Nat.cast_add]

/-- A number is what it is unpacked into. -/
theorem ofModel_pack_unpack (x : Float) : .ofModel (Float.Model.pack x.toModel.unpack) = x :=
  Float.ofBits_toBits x

/-- The sum of two amounts is near to their exact sum. -/
theorem IsAmount.add (hx : IsAmount x) (hy : IsAmount y) (hlt : value x + value y < 2 ^ 1000) :
    IsNear (value x + value y) (x + y) := by
  show IsNear _ (.ofModel (Float.Model.pack
    (UnpackedFloat.add Format.binary64 x.toModel.unpack y.toModel.unpack)))
  rcases hx.cases with ⟨hx0, hvx⟩ | ⟨m₁, e₁, hc₁, hx1, hvx⟩
  · rw [hx0, hvx, zero_add]
    have hsum : UnpackedFloat.add Format.binary64 (.zero .positive) y.toModel.unpack =
        y.toModel.unpack := by
      rcases hy.cases with ⟨hy0, -⟩ | ⟨m₂, e₂, hc₂, hy1, -⟩
      · rw [hy0]
        rfl
      · rw [hy1]
        rfl
    rw [hsum, ofModel_pack_unpack]
    exact hy.isNear
  · rcases hy.cases with ⟨hy0, hvy⟩ | ⟨m₂, e₂, hc₂, hy1, hvy⟩
    · have hsum : UnpackedFloat.add Format.binary64 x.toModel.unpack (.zero .positive) =
          x.toModel.unpack := by
        rw [hx1]
        rfl
      rw [hy0, hvy, add_zero, hsum, ofModel_pack_unpack]
      exact hx.isNear
    · rw [hvx, hvy] at hlt ⊢
      rw [hx1, hy1]
      exact add_isRounded.isNear hlt

/-- One of two factors has digits enough, or their product is among the least values. -/
theorem IsCanonical.le_targetExponent (hc₁ : IsCanonical m₁ e₁) (hc₂ : IsCanonical m₂ e₂) :
    e₁ + e₂ ≤ targetExponent (m₁ * m₂) (e₁ + e₂) := by
  by_cases hleast : e₁ + e₂ ≤ -1074
  · exact hleast.trans (le_max_right _ _)
  · have hproduct : 2 ^ 52 ≤ m₁ * m₂ := by
      rcases hc₁.normal with he₁ | hm₁
      · have hm₂ := hc₂.normal.resolve_left (by omega)
        exact hm₂.trans (Nat.le_mul_of_pos_left _ hc₁.pos)
      · exact hm₁.trans (Nat.le_mul_of_pos_right _ hc₂.pos)
    have hlog := (Nat.le_log2 (Nat.mul_pos hc₁.pos hc₂.pos).ne').2 hproduct
    unfold targetExponent
    omega

/-- The product of two amounts is near to their exact product. -/
theorem IsAmount.mul (hx : IsAmount x) (hy : IsAmount y) (hlt : value x * value y < 2 ^ 1000) :
    IsNear (value x * value y) (x * y) := by
  show IsNear _ (.ofModel (Float.Model.pack
    (UnpackedFloat.mul Format.binary64 x.toModel.unpack y.toModel.unpack)))
  rcases hx.cases with ⟨hx0, hvx⟩ | ⟨m₁, e₁, hc₁, hx1, hvx⟩
  · have hproduct : UnpackedFloat.mul Format.binary64 (.zero .positive) y.toModel.unpack =
        .zero .positive := by
      rcases hy.cases with ⟨hy0, -⟩ | ⟨m₂, e₂, hc₂, hy1, -⟩
      · rw [hy0]
        rfl
      · rw [hy1]
        rfl
    rw [hx0, hvx, zero_mul, hproduct]
    exact isNear_zero
  · rcases hy.cases with ⟨hy0, hvy⟩ | ⟨m₂, e₂, hc₂, hy1, hvy⟩
    · rw [hx1, hy0, hvy, mul_zero]
      exact isNear_zero
    · rw [hvx, hvy] at hlt ⊢
      rw [hx1, hy1]
      exact (mul_isRounded .positive .positive (hc₁.le_targetExponent hc₂)).isNear hlt

/-- The quotient of two amounts is near to their exact quotient. -/
theorem IsAmount.div (hx : IsAmount x) (hy : IsAmount y) (hpos : 0 < value y)
    (hlt : value x / value y < 2 ^ 1000) : IsNear (value x / value y) (x / y) := by
  show IsNear _ (.ofModel (Float.Model.pack
    (UnpackedFloat.div Format.binary64 x.toModel.unpack y.toModel.unpack)))
  rcases hy.cases with ⟨hy0, hvy⟩ | ⟨m₂, e₂, hc₂, hy1, hvy⟩
  · rw [hvy] at hpos
    exact absurd hpos (lt_irrefl 0)
  · rcases hx.cases with ⟨hx0, hvx⟩ | ⟨m₁, e₁, hc₁, hx1, hvx⟩
    · rw [hx0, hy1, hvx, zero_div]
      exact isNear_zero
    · rw [hvx, hvy] at hlt ⊢
      rw [hx1, hy1]
      exact (div_isRounded .positive .positive).isNear hlt

/-- A count of 64 bits is near to its number. -/
theorem isNear_ofCount (hn : n < 2 ^ 64) : IsNear n (ofCount n) := by
  rw [ofCount, toFloat_eq hn]
  rcases Nat.eq_zero_or_pos n with rfl | hpos
  · exact isNear_zero
  · refine (ofNat_isRounded hpos).isNear ?_
    calc
      (n : Rat) < 2 ^ 64 := by exact_mod_cast hn
      _ ≤ 2 ^ 1000 := pow_le_pow_right₀ one_le_two (by norm_num)

end Operations

/-! ## Order -/

section Order

variable {x y : Float} {m : Nat} {e : Int}

/-- The place of an amount in the total order is made of its exponent and its fraction. -/
theorem orderKey_of_parts (h : parts x = .finite false m e) :
    ∃ biased fraction : Nat, orderKey x = biased * 2 ^ 52 + fraction ∧ fraction < 2 ^ 52 ∧
      (biased = 0 ∧ m = fraction ∧ e = -1074 ∨
        0 < biased ∧ m = 2 ^ 52 + fraction ∧ e = biased - 1075) := by
  obtain ⟨biased, fraction, hbiased, hfraction, hbits, hfields⟩ := fields_of_parts h
  rw [if_neg Bool.false_ne_true] at hbits
  refine ⟨biased, fraction, ?_, hfraction, hfields⟩
  unfold orderKey
  simp only [Nat.pow_eq]
  rw [if_pos (by omega)]
  omega

/-- Amounts that are ascending in the total order are ascending. -/
theorem IsAmount.value_le (hx : IsAmount x) (hy : IsAmount y) (h : orderKey x ≤ orderKey y) :
    value x ≤ value y := by
  obtain ⟨m₁, e₁, hx⟩ := hx
  obtain ⟨m₂, e₂, hy⟩ := hy
  obtain ⟨b₁, f₁, hkey₁, hf₁, hfields₁⟩ := orderKey_of_parts hx
  obtain ⟨b₂, f₂, hkey₂, hf₂, hfields₂⟩ := orderKey_of_parts hy
  rw [value_of_parts hx, value_of_parts hy]
  rw [hkey₁, hkey₂] at h
  have hcases : (e₁ = e₂ ∧ m₁ ≤ m₂) ∨ (e₁ + 1 ≤ e₂ ∧ m₁ ≤ 2 ^ 53 ∧ 2 ^ 52 ≤ m₂) := by omega
  rcases hcases with ⟨rfl, hm⟩ | ⟨he, hm₁, hm₂⟩
  · exact mul_le_mul_of_nonneg_right (by exact_mod_cast hm) (two_zpow_pos _).le
  · have hlow : (m₁ : Rat) ≤ 2 ^ 53 := by exact_mod_cast hm₁
    have hhigh : (2 : Rat) ^ 52 ≤ m₂ := by exact_mod_cast hm₂
    calc
      (m₁ : Rat) * 2 ^ e₁ ≤ 2 ^ 53 * 2 ^ e₁ := mul_le_mul_of_nonneg_right hlow (two_zpow_pos _).le
      _ = 2 ^ 52 * 2 ^ (e₁ + 1) := by
        rw [zpow_add_one₀ two_ne_zero]
        ring
      _ ≤ 2 ^ 52 * 2 ^ e₂ :=
        mul_le_mul_of_nonneg_left (zpow_le_zpow_right₀ one_le_two he) (by norm_num)
      _ ≤ m₂ * 2 ^ e₂ := mul_le_mul_of_nonneg_right hhigh (two_zpow_pos _).le

end Order

/-! ## Lengths of time -/

section Lengths

/-- What is below this bound is nowhere near the greatest number. -/
theorem lt_limit {v : Rat} (h : v < 2 ^ 100) : v < 2 ^ 1000 :=
  h.trans (pow_lt_pow_right₀ one_lt_two (by norm_num))

/-- The slack is far below any unit of time. -/
theorem slack_le : slack ≤ 1 / 10 ^ 20 := by
  norm_num [slack]

/-- A length in seconds, computed from its whole seconds and the nanoseconds beyond them with any
number that is near to a billion, is an amount, and zero only if the length is. -/
theorem isAmount_seconds {billion : Float} (hb : IsNear 1_000_000_000 billion) {s n : Nat}
    (hs : s < 2 ^ 64) (hn : n < 1_000_000_000) :
    IsAmount (ofCount s + ofCount n / billion) ∧
      value (ofCount s + ofCount n / billion) ≤ 2 ^ 70 ∧
      (0 < s ∨ 0 < n → 0 < value (ofCount s + ofCount n / billion)) := by
  have hslack := slack_le
  have hsmall := slack_pos
  have hb₁ := hb.low
  have hb₂ := hb.high
  have hwhole := isNear_ofCount hs
  have hrest := isNear_ofCount (show n < 2 ^ 64 by omega)
  have hwhole₁ := hwhole.low
  have hwhole₂ := hwhole.high
  have hrest₁ := hrest.low
  have hrest₂ := hrest.high
  have hs' : (s : Rat) ≤ 2 ^ 64 := by exact_mod_cast hs.le
  have hn' : (n : Rat) ≤ 1_000_000_000 := by exact_mod_cast hn.le
  have hpos : 0 < value billion := by linarith
  -- The part below a second is at most five even if both operands are off, so the quotient is far
  -- from the end of the range.
  have hfive : value (ofCount n) / value billion ≤ 5 := (div_le_iff₀ hpos).2 (by linarith)
  have hquotient := hrest.amount.div hb.amount hpos (lt_limit (hfive.trans_lt (by norm_num)))
  have hquotient₁ := hquotient.low
  have hquotient₂ := hquotient.high
  have hbound : value (ofCount s) + value (ofCount n / billion) ≤ 2 ^ 68 := by
    linarith
  have hsum := hwhole.amount.add hquotient.amount
    (lt_limit (hbound.trans_lt (pow_lt_pow_right₀ one_lt_two (by norm_num))))
  have hsum₁ := hsum.low
  have hsum₂ := hsum.high
  refine ⟨hsum.amount, ?_, ?_⟩
  · linarith
  · rintro (hs₁ | hn₁)
    · have hone : (1 : Rat) ≤ s := by exact_mod_cast hs₁
      have hnonneg := hquotient.amount.value_nonneg
      linarith
    · have hone : (1 : Rat) ≤ n := by exact_mod_cast hn₁
      have hnonneg := hwhole.amount.value_nonneg
      have hpart : 1 / 10 ^ 10 ≤ value (ofCount n) / value billion :=
        (le_div_iff₀ hpos).2 (by linarith)
      linarith

/-- The seconds of a length are a word. -/
theorem seconds_lt (a : Span) : a.seconds < 2 ^ 64 := by
  have hmax : a.nanos ≤ 2 ^ 64 * 1_000_000_000 - 1 := a.le_max
  unfold Span.seconds
  omega

/-- A length in milliseconds is an amount. -/
theorem isAmount_toMillis (a : Span) : IsAmount a.toMillis := by
  have hbillion : IsNear 1_000_000_000 1e9 :=
    isNear_of_parts (m := 8388608000000000) (e := -23) (by decide) (by norm_num)
  have hthousand : IsNear 1000 1000.0 :=
    isNear_of_parts (m := 8796093022208000) (e := -43) (by decide) (by norm_num)
  have hslack := slack_le
  have hthousand₂ := hthousand.high
  have hseconds := seconds_lt a
  obtain ⟨hamount, hhigh, -⟩ := isAmount_seconds hbillion hseconds (Nat.mod_lt _ (by norm_num))
  refine (hamount.mul hthousand.amount (lt_limit ?_)).amount
  calc
    value a.toSeconds * value 1000.0 ≤ 2 ^ 70 * 2 ^ 20 :=
      mul_le_mul hhigh (by linarith) hthousand.amount.value_nonneg (by norm_num)
    _ < 2 ^ 100 := by norm_num

end Lengths

end LoadReplay.Number
