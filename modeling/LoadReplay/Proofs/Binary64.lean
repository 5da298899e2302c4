import LoadReplay.Number.Reader
import LoadReplay.Proofs.Rounding
import Mathlib

/-!
# Binary64 values and their parts

A binary64 number is known by its parts: its sign, its significand and its exponent, which are read
off its bits.  The arithmetic is that of unpacked values, which are packed into bits and unpacked
from them.  Both views agree (`parts_eq`), a value that is packed is unpacked again
(`unpack_pack`), and two numbers with the same parts are the same number (`parts_injective`).

## Shape of the proof

Bits are compared as natural numbers: a bit pattern is a sign, a biased exponent and a fraction,
and `Parts.ofFields` says what such fields stand for, for both views (`ofUnpacked_unpack`,
`ofBits_toNat`).  Reading a decimal takes a short cut for small counts and small powers of ten,
which are values themselves (`unpack_toFloat`, `unpack_powersOfTen`), so that only one rounding is
made on either way.

Main statements: `parts_injective` and `parts_nearest`.
-/

namespace LoadReplay.Number

open Float.Model Float.Model.UnpackedFloat

/-! ## Unpacked values -/

/-- Whether a sign is the negative one. -/
def isMinus : Sign → Bool
  | .negative => true
  | .positive => false

/-- The sign of the values that are negative or not. -/
def signOf (negative : Bool) : Sign := if negative then .negative else .positive

/-- The parts of an unpacked value. -/
def Parts.ofUnpacked : UnpackedFloat → Parts
  | .notANumber => .nan
  | .infinity s => .infinite (isMinus s)
  | .zero s => .finite (isMinus s) 0 (-1074)
  | .finite s m e _ => .finite (isMinus s) m e

/-- Whether a value is one of those that a bit pattern unpacks to. -/
def IsPackable : UnpackedFloat → Prop
  | .finite _ m e _ => IsCanonical m e
  | _ => True

/-- A sign is told by whether it is a minus. -/
theorem isMinus_signOf (negative : Bool) : isMinus (signOf negative) = negative := by
  cases negative <;> rfl

/-- There are two signs. -/
theorem isMinus_inj {s s' : Sign} : isMinus s = isMinus s' ↔ s = s' := by
  cases s <;> cases s' <;> simp [isMinus]

/-- A number is told by its parts. -/
theorem Parts.ofUnpacked_injective : Function.Injective Parts.ofUnpacked := by
  intro u v h
  cases u <;> cases v <;> simp only [Parts.ofUnpacked, Parts.finite.injEq, Parts.infinite.injEq,
    reduceCtorEq, isMinus_inj] at h
  case infinity.infinity => rw [h]
  case notANumber.notANumber => rfl
  case zero.zero => rw [h.1]
  case zero.finite hpos => exact absurd h.2.1 hpos.ne
  case finite.zero hpos _ => exact absurd h.2.1 hpos.ne'
  case finite.finite =>
    obtain ⟨rfl, rfl, rfl⟩ := h
    rfl

/-! ## Bit patterns -/

/-- The parts of a value whose sign, biased exponent and fraction are given. -/
def Parts.ofFields (negative : Bool) (biased fraction : Nat) : Parts :=
  if biased = 2047 then if fraction = 0 then .infinite negative else .nan
  else if biased = 0 then .finite negative fraction (-1074)
  else .finite negative (2 ^ 52 + fraction) (biased - 1075)

/-- The leading bit of a mantissa is not stored. -/
theorem toNat_one_append (v : BitVec 52) : (1#1 ++ v).toNat = 2 ^ 52 + v.toNat := by
  rw [BitVec.toNat_append, ← Nat.shiftLeft_add_eq_or_of_lt v.isLt]
  rfl

/-- A number is unpacked into the three fields of its bits. -/
theorem ofUnpacked_unpack (b : BitVec Format.binary64.numBits) :
    Parts.ofUnpacked (unpack Format.binary64 b) =
      Parts.ofFields (isMinus (Sign.ofBitVec (unpackSign b))) (unpackExponent b).toNat
        (unpackMantissa b).toNat := by
  have hones : unpackExponent b = -1#11 ↔ (unpackExponent b).toNat = 2047 := BitVec.toNat_eq
  have hexponent : unpackExponent b = 0#11 ↔ (unpackExponent b).toNat = 0 := BitVec.toNat_eq
  have hmantissa : unpackMantissa b = 0#52 ↔ (unpackMantissa b).toNat = 0 := BitVec.toNat_eq
  have hbias : (Format.binary64.exponentBias : Int) = 1023 := rfl
  have happend := toNat_one_append (unpackMantissa b)
  unfold UnpackedFloat.unpack Parts.ofFields
  dsimp only
  -- The three classes of exponent fields: all ones, all zeros, and the normal ones.
  by_cases hinf : (unpackExponent b).toNat = 2047
  · rw [if_pos (hones.2 hinf), if_pos hinf]
    by_cases hzero : (unpackMantissa b).toNat = 0
    · rw [if_pos (hmantissa.2 hzero), if_pos hzero]
      rfl
    · rw [if_neg (mt hmantissa.1 hzero), if_neg hzero]
      rfl
  rw [if_neg (mt hones.1 hinf), if_neg hinf]
  by_cases hsub : (unpackExponent b).toNat = 0
  · rw [if_pos (hexponent.2 hsub), if_pos hsub]
    by_cases hzero : (unpackMantissa b).toNat = 0
    · rw [dif_pos (hmantissa.2 hzero), hzero]
      rfl
    · rw [dif_neg (mt hmantissa.1 hzero), hsub]
      rfl
  · rw [if_neg (mt hexponent.1 hsub), if_neg hsub, Parts.ofUnpacked, happend, hbias]
    rfl

/-- What is packed from three fields is unpacked into them. -/
theorem ofUnpacked_packComponents (s : Sign) (biased : BitVec 11) (fraction : BitVec 52) :
    Parts.ofUnpacked (unpack Format.binary64
      (packComponents Format.binary64 s biased fraction)) =
      Parts.ofFields (isMinus s) biased.toNat fraction.toNat := by
  rw [ofUnpacked_unpack, unpackSign_packComponents, unpackExponent_packComponents,
    unpackMantissa_packComponents, Sign.ofBitVec_toBitVec]

/-- The parts of bits are those of the number that they are unpacked into. -/
theorem ofBits_toNat (b : BitVec Format.binary64.numBits) :
    Parts.ofBits b.toNat = .ofUnpacked (unpack Format.binary64 b) := by
  have hmantissa : (unpackMantissa b).toNat = b.toNat % 2 ^ 52 := by
    rw [unpackMantissa_def, BitVec.extractLsb'_toNat]
    rfl
  have hexponent : (unpackExponent b).toNat = b.toNat / 2 ^ 52 % 2 ^ 11 := by
    rw [unpackExponent_def, BitVec.extractLsb'_toNat, Nat.shiftRight_eq_div_pow]
  have hsign : isMinus (Sign.ofBitVec (unpackSign b)) = (b.toNat / 2 ^ 63 % 2 == 1) := by
    have hbit : (unpackSign b).toNat = b.toNat / 2 ^ 63 % 2 := by
      rw [unpackSign_def, BitVec.extractLsb'_toNat, Nat.shiftRight_eq_div_pow]
      rfl
    rw [← hbit]
    generalize unpackSign b = s
    revert s
    decide
  rw [ofUnpacked_unpack, hmantissa, hexponent, hsign]
  rfl

/-- What fits in the format is packed and unpacked without loss. -/
theorem unpack_pack {u : UnpackedFloat} (h : IsPackable u) :
    unpack Format.binary64 (u.pack Format.binary64) = u := by
  cases u with
  | notANumber => rfl
  | infinity s => cases s <;> rfl
  | zero s => cases s <;> rfl
  | finite s m e hm =>
    have hlt := h.lt
    have hleast := h.least
    have hgreatest := h.greatest
    have hnormal := h.normal
    -- It is enough to compare the parts, and those can be read off the fields.
    apply Parts.ofUnpacked_injective
    unfold UnpackedFloat.pack
    extract_lets bits biased
    have hbiased : biased = (e + 1075).toNat := by
      show (e + (2 ^ (11 - 1) - 1 : Nat) + (52 : Nat)).toNat = (e + 1075).toNat
      omega
    have hlog : bits + 1 = Format.binary64.mantissaBits ↔ 2 ^ 52 ≤ m := by
      rw [← Nat.le_log2 hm.ne']
      have hle : m.log2 < 53 := (Nat.log2_lt hm.ne').2 hlt
      show m.log2 + 1 = 53 ↔ 52 ≤ m.log2
      omega
    rw [if_neg (by show ¬ 2 ^ 11 ≤ biased + 1; omega)]
    -- Whether the leading bit is there decides between a normal and a subnormal number.
    by_cases hlow : 2 ^ 52 ≤ m
    · have hexponent : (BitVec.ofNat 11 biased).toNat = biased := by
        rw [BitVec.toNat_ofNat]
        omega
      have hfraction : 2 ^ 52 + (BitVec.ofNat 52 m).toNat = m := by
        rw [BitVec.toNat_ofNat]
        omega
      rw [if_pos (hlog.2 hlow)]
      refine (ofUnpacked_packComponents s (BitVec.ofNat 11 biased) (BitVec.ofNat 52 m)).trans ?_
      unfold Parts.ofFields
      rw [hexponent, if_neg (by omega), if_neg (by omega), hfraction]
      exact congrArg (Parts.finite (isMinus s) m) (by omega)
    · have hfraction : (BitVec.ofNat 52 m).toNat = m := by
        rw [BitVec.toNat_ofNat]
        omega
      rw [if_neg (mt hlog.1 hlow)]
      refine (ofUnpacked_packComponents s 0#11 (BitVec.ofNat 52 m)).trans ?_
      rw [hfraction, hnormal.resolve_right hlow]
      rfl

/-! ## Values -/

/-- The parts of a number are those of what it is unpacked into. -/
theorem parts_eq (x : Float) : parts x = .ofUnpacked x.toModel.unpack :=
  ofBits_toNat x.toBits.toBitVec

/-- The parts of a number that was packed are those of what was packed. -/
theorem parts_ofModel_pack {u : UnpackedFloat} (h : IsPackable u) :
    parts (.ofModel (Float.Model.pack u)) = .ofUnpacked u := by
  rw [parts_eq]
  exact congrArg Parts.ofUnpacked (unpack_pack h)

/-- A value is what its parts are. -/
theorem parts_injective : Function.Injective parts := by
  intro x y h
  rw [parts_eq, parts_eq] at h
  have hx := Float.ofBits_toBits x
  have hy := Float.ofBits_toBits y
  have hunpack : x.toModel.unpack = y.toModel.unpack := Parts.ofUnpacked_injective h
  calc
    x = .ofModel (Float.Model.pack x.toModel.unpack) := hx.symm
    _ = .ofModel (Float.Model.pack y.toModel.unpack) := by rw [hunpack]
    _ = y := hy

section Fields

variable {x : Float} {negative : Bool} {m : Nat} {e : Int}

/-- The fields of a finite value: its sign, its biased exponent and its fraction. -/
theorem fields_of_parts (h : parts x = .finite negative m e) :
    ∃ biased fraction : Nat, biased < 2047 ∧ fraction < 2 ^ 52 ∧
      x.toBits.toNat = (if negative then 2 ^ 63 else 0) + biased * 2 ^ 52 + fraction ∧
      (biased = 0 ∧ m = fraction ∧ e = -1074 ∨
        0 < biased ∧ m = 2 ^ 52 + fraction ∧ e = biased - 1075) := by
  have hbits := x.toBits.toNat_lt
  have hsign : ∀ b : Bool, (x.toBits.toNat / 2 ^ 63 % 2 == 1) = b →
      x.toBits.toNat / 2 ^ 63 * 2 ^ 63 = if b then 2 ^ 63 else 0 := by
    rintro b rfl
    by_cases hone : x.toBits.toNat / 2 ^ 63 % 2 = 1
    · rw [if_pos (beq_iff_eq.2 hone)]
      omega
    · rw [if_neg (mt beq_iff_eq.1 hone)]
      omega
  refine ⟨x.toBits.toNat / 2 ^ 52 % 2 ^ 11, x.toBits.toNat % 2 ^ 52, ?_⟩
  unfold parts Parts.ofBits at h
  simp only [Nat.pow_eq] at h
  split at h
  · split at h <;> cases h
  · split at h <;> obtain ⟨hnegative, hm, he⟩ := Parts.finite.inj h <;>
      rw [← hsign _ hnegative] <;> omega

/-- A finite value that is not zero has the exponent that its format asks for. -/
theorem isCanonical_of_parts (h : parts x = .finite negative m e) (hm : 0 < m) :
    IsCanonical m e := by
  obtain ⟨biased, fraction, hbiased, hfraction, -, hfields⟩ := fields_of_parts h
  exact ⟨hm, by omega, by omega, by omega, by omega⟩

/-- Zeros have the least exponent. -/
theorem exponent_of_parts_zero (h : parts x = .finite negative 0 e) : e = -1074 := by
  obtain ⟨biased, fraction, -, -, -, hfields⟩ := fields_of_parts h
  omega

end Fields

/-- What was unpacked fits in the format. -/
theorem isPackable_unpack (x : Float) : IsPackable x.toModel.unpack := by
  have hparts := parts_eq x
  cases hu : x.toModel.unpack with
  | finite s m e hm =>
    rw [hu] at hparts
    exact isCanonical_of_parts hparts hm
  | _ => trivial

/-- The parts of the value of the other sign. -/
def Parts.negate : Parts → Parts
  | .nan => .nan
  | .infinite negative => .infinite !negative
  | .finite negative m e => .finite (!negative) m e

/-- Negation changes the sign only. -/
theorem parts_neg (x : Float) : parts (-x) = (parts x).negate := by
  have hneg : IsPackable x.toModel.unpack.neg := by
    have hu := isPackable_unpack x
    cases h : x.toModel.unpack with
    | finite s m e hm =>
      rw [h] at hu
      exact hu
    | _ => trivial
  rw [parts_eq x]
  refine (parts_ofModel_pack hneg).trans ?_
  rcases x.toModel.unpack with s | _ | s | ⟨s, m, e, hm⟩ <;> first | rfl | cases s <;> rfl

/-! ## Decimals -/

section Decimals

variable {c k m : Nat} {e : Int}

/-- The powers of ten in the table are exact: the fives in each of them fit a significand. -/
theorem parts_powersOfTen : ∀ i : Fin 23,
    parts (Float.exactlyRepresentablePowersOfTen[i]) =
      .finite false (5 ^ i.val * 2 ^ (52 - (5 ^ i.val).log2)) (i.val + (5 ^ i.val).log2 - 52) := by
  decide +kernel

/-- A number is unpacked into its parts. -/
theorem unpack_of_parts {x : Float} {negative : Bool} (h : parts x = .finite negative m e)
    (hm : 0 < m) : x.toModel.unpack = .finite (signOf negative) m e hm := by
  apply Parts.ofUnpacked_injective
  rw [← parts_eq, h, Parts.ofUnpacked, isMinus_signOf]

/-- A word is turned into the number that is nearest to it. -/
theorem toFloat_eq (hlt : c < 2 ^ 64) :
    c.toUInt64.toFloat = .ofModel (Float.Model.pack (UnpackedFloat.ofNat Format.binary64 c)) := by
  have hcount : c.toUInt64.toNat = c := Nat.mod_eq_of_lt hlt
  conv_rhs => rw [← hcount]
  rfl

/-- A count that is short enough, as a value. -/
theorem unpack_toFloat (hc : 0 < c) (hlt : c < 2 ^ 53) :
    ∃ m e, ∃ hc : IsCanonical m e, 2 ^ 52 ≤ m ∧ (m : Rat) * 2 ^ e = c ∧
      c.toUInt64.toFloat.toModel.unpack = .finite .positive m e hc.pos := by
  obtain ⟨m, e, hcanonical, hnormal, hvalue, hofNat⟩ := ofNat_eq hc hlt
  have hpackable : IsPackable (.finite .positive m e hcanonical.pos) := hcanonical
  refine ⟨m, e, hcanonical, hnormal, hvalue, ?_⟩
  rw [toFloat_eq (by omega), hofNat]
  exact unpack_pack hpackable

/-- A power of ten in the table, as a value. -/
theorem unpack_powersOfTen (i : Fin 23) :
    ∃ (m : Nat) (e : Int) (hm : 0 < m), (m : Rat) * 2 ^ e = 10 ^ i.val ∧
      (Float.exactlyRepresentablePowersOfTen[i]).toModel.unpack = .finite .positive m e hm := by
  have hm : 0 < 5 ^ i.val * 2 ^ (52 - (5 ^ i.val).log2) := by positivity
  refine ⟨_, _, hm, ?_, unpack_of_parts (parts_powersOfTen i) hm⟩
  have hlog : (5 ^ i.val).log2 ≤ 52 := by
    refine Nat.le_of_lt_succ ((Nat.log2_lt (by positivity)).2 ?_)
    calc
      5 ^ i.val ≤ 5 ^ 22 := Nat.pow_le_pow_right (by norm_num) (by omega)
      _ < 2 ^ 53 := by norm_num
  have hexponent :
      (i.val : Int) + (5 ^ i.val).log2 - 52 + (52 - (5 ^ i.val).log2 : Nat) = i.val := by
    omega
  push_cast
  rw [mul_assoc, ← two_zpow_add, hexponent, zpow_natCast, ← mul_pow]
  norm_num

/-- The exponent of a decimal that is written as a count and a sign. -/
def decimalExponent (negative : Bool) (k : Nat) : Int := if negative then -k else k

/-- Reading a decimal gives the value that it rounds to. -/
theorem parts_ofScientific {negative : Bool} (hpos : 0 < c) (hc : IsCanonical m e)
    (hv : RoundsTo (c * 10 ^ decimalExponent negative k) m e) :
    parts (Float.ofScientific c negative k) = .finite false m e := by
  have hpackable : IsPackable (.finite .positive m e hc.pos) := hc
  refine Eq.trans (congrArg parts ?_) (parts_ofModel_pack hpackable)
  unfold Float.ofScientific
  -- Small digits and powers take one operation of the machine; both operands are exact then, so its
  -- one rounding is the right one.
  split
  case isTrue hfast =>
    obtain ⟨m₁, e₁, hc₁, hnormal, hvalue₁, hunpack₁⟩ := unpack_toFloat hpos hfast.1
    obtain ⟨m₂, e₂, hm₂, hvalue₂, hunpack₂⟩ := unpack_powersOfTen ⟨k, Nat.lt_succ_of_le hfast.2⟩
    cases negative with
    | true =>
      refine congrArg (fun u => Float.ofModel (Float.Model.pack u)) ?_
      rw [hunpack₁]
      refine (congrArg _ hunpack₂).trans ((div_isRounded .positive .positive).eq_finite hc ?_)
      rwa [hvalue₁, hvalue₂, div_eq_mul_inv, ← zpow_natCast, ← zpow_neg]
    | false =>
      refine congrArg (fun u => Float.ofModel (Float.Model.pack u)) ?_
      rw [hunpack₁]
      refine (congrArg _ hunpack₂).trans ((mul_isRounded .positive .positive ?_).eq_finite hc ?_)
      · have hdigits : 52 ≤ (m₁ * m₂).log2 := (Nat.le_log2 (by positivity)).2
          (hnormal.trans (Nat.le_mul_of_pos_right _ hm₂))
        unfold targetExponent
        omega
      · rwa [hvalue₁, hvalue₂, ← zpow_natCast]
  case isFalse hslow =>
    have hexponent : (if negative then Int.negOfNat k else Int.ofNat k) =
        decimalExponent negative k := by
      cases negative
      · rfl
      · exact Int.negOfNat_eq
    exact congrArg (fun u => Float.ofModel (Float.Model.pack u))
      ((congrArg _ hexponent).trans (ofScientific_of_roundsTo hpos hc hv))

/-- A count has as many digits as the power of ten above it. -/
theorem length_toDigits_bounds (hpos : 0 < c) :
    (10 : Rat) ^ ((Nat.toDigits 10 c).length - 1 : Int) ≤ c ∧
      (c : Rat) < 10 ^ ((Nat.toDigits 10 c).length : Int) := by
  obtain ⟨d, hd⟩ := Nat.exists_eq_succ_of_ne_zero (Nat.length_toDigits_pos (b := 10) (n := c)).ne'
  have hhigh : c < 10 ^ (d + 1) :=
    (Nat.length_toDigits_le_iff (by norm_num) d.succ_pos).1 hd.le
  have hlow : 10 ^ d ≤ c := by
    rcases Nat.eq_zero_or_pos d with rfl | hd0
    · exact hpos
    · refine Nat.le_of_not_lt fun hlt => ?_
      have hlength := (Nat.length_toDigits_le_iff (by norm_num) hd0).2 hlt
      omega
  rw [hd, Nat.succ_eq_add_one, Nat.cast_add_one, add_sub_cancel_right]
  exact ⟨by exact_mod_cast hlow, by exact_mod_cast hhigh⟩

/-- Reading a number text whose decimal rounds to a value gives that value. -/
theorem parts_nearest {k : Int} (hpos : 0 < c) (hc : IsCanonical m e)
    (hv : RoundsTo (c * 10 ^ k) m e) : parts (nearest c k) = .finite false m e := by
  obtain ⟨hlow, hhigh⟩ := length_toDigits_bounds hpos
  unfold nearest
  extract_lets point
  have hpoint : point = ((Nat.toDigits 10 c).length : Int) + k := rfl
  have hgreat : ¬ point > 400 := by
    have habove : (10 : Rat) ^ (point - 1) ≤ c * 10 ^ k := by
      rw [hpoint, add_sub_right_comm, zpow_add₀ (by norm_num)]
      exact mul_le_mul_of_nonneg_right hlow (by positivity)
    have hlt := hv.lt_of_ten_zpow_le hc habove
    omega
  have hsmall : ¬ point < -400 := by
    have hbelow : (c : Rat) * 10 ^ k < 10 ^ point := by
      rw [hpoint, zpow_add₀ (by norm_num)]
      exact mul_lt_mul_of_pos_right hhigh (by positivity)
    have hlt := hv.gt_of_lt_ten_zpow hc hbelow
    omega
  rw [if_neg hpos.ne', if_neg hgreat, if_neg hsmall]
  cases k with
  | ofNat k => exact parts_ofScientific hpos hc hv
  | negSucc k => exact parts_ofScientific hpos hc hv

end Decimals

end LoadReplay.Number
