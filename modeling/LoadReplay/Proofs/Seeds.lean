import LoadReplay.Random.Draw
import Mathlib.Algebra.GroupWithZero.Nat
import Mathlib.Algebra.Ring.Int.Defs

/-!
# Users of a scenario have different seeds

The seed of a virtual user comes from a hash that takes in the name of the scenario and then the
index of the user, byte by byte.  A byte goes into the last eight bits of the hash, which is then
multiplied by `2 ^ 40 + 435`.  That an index can be told from its hash does not go without saying:
a byte that is taken in later could undo what an earlier one has done.

## Shape of the proof

Modulo `2 ^ 40`, the multiplication makes a difference 435 times as great, and a byte adds at most
510 to it (`Near`).  So as long as few bytes are taken in, a difference does not come round, and it
stays a multiple of 435.  The next byte can undo a difference of at most 255 only.  Hence two hashes
that become equal were equal before, and four bytes are few enough (`Stays`).

Main statement: `userSeed_ne`.
-/

namespace LoadReplay.Random

/-! ## One byte -/

/-- A hash when a byte is in it, before it is multiplied. -/
def takeIn (x : UInt64) (b : UInt8) : UInt64 := x ^^^ b.toUInt64

/-- A hash multiplied by the prime. -/
def scale (x : UInt64) : UInt64 := x * 0x100000001b3

theorem hashByte_eq (x : UInt64) (b : UInt8) : hashByte x b = scale (takeIn x b) := rfl

/-- Scaling multiplies by the prime, up to multiples of the word size. -/
theorem toNat_scale (x : UInt64) :
    ∃ q, (scale x).toNat + 2 ^ 64 * q = x.toNat * (2 ^ 40 + 435) := by
  have hprime : (0x100000001b3 : UInt64).toNat = 2 ^ 40 + 435 := by decide
  refine ⟨x.toNat * (2 ^ 40 + 435) / 2 ^ 64, ?_⟩
  rw [scale, UInt64.toNat_mul, hprime, Nat.mod_add_div]

/-- The prime has an inverse among the words. -/
theorem scale_injective {x y : UInt64} (h : scale x = scale y) : x = y := by
  have hone : (0x100000001b3 : UInt64) * 0xce965057aff6957b = 1 := by decide
  have := congrArg (· * 0xce965057aff6957b) h
  simpa only [scale, UInt64.mul_assoc, hone, UInt64.mul_one] using this

/-- A byte goes into the last eight bits. -/
theorem toNat_takeIn_div (x : UInt64) (b : UInt8) : (takeIn x b).toNat / 256 = x.toNat / 256 := by
  have hb : b.toNat / 256 = 0 := Nat.div_eq_of_lt b.toNat_lt
  have hxor : (takeIn x b).toNat = x.toNat ^^^ b.toNat := UInt64.toNat_xor _ _
  have hshift := Nat.shiftRight_xor_distrib (a := x.toNat) (b := b.toNat) (i := 8)
  simp only [Nat.shiftRight_eq_div_pow] at hshift
  rw [hxor]
  exact hshift.trans (by rw [hb, Nat.xor_zero])

/-- Two bytes that are taken in with the same outcome are equal. -/
theorem takeIn_injective {x : UInt64} {b c : UInt8} (h : takeIn x b = takeIn x c) : b = c := by
  have hwords : b.toUInt64 = c.toUInt64 := by
    have := congrArg (x ^^^ ·) h
    simpa only [takeIn, ← UInt64.xor_assoc, UInt64.xor_self, UInt64.zero_xor] using this
  exact UInt8.toNat_inj.1 (congrArg UInt64.toNat hwords)

/-! ## Differences -/

/-- Modulo `2 ^ 40`, two hashes differ by at most `r`. -/
def Near (r : Nat) (x y : UInt64) : Prop :=
  ∃ d k : Int, (x.toNat : Int) = y.toNat + d + 2 ^ 40 * k ∧ d.natAbs ≤ r

variable {r : Nat} {x y : UInt64}

/-- A hash does not differ from itself. -/
theorem near_refl (x : UInt64) : Near 0 x x := ⟨0, 0, by omega, Nat.le_refl 0⟩

/-- Taking in a byte each makes two hashes differ by a little more. -/
theorem Near.taken (h : Near r x y) (b c : UInt8) : Near (r + 510) (takeIn x b) (takeIn y c) := by
  obtain ⟨d, k, hd, hr⟩ := h
  have hx := toNat_takeIn_div x b
  have hy := toNat_takeIn_div y c
  exact ⟨(takeIn x b).toNat - (takeIn y c).toNat - 2 ^ 40 * k, k, by omega, by omega⟩

/-- The multiplication makes a difference 435 times as great. -/
theorem difference_scale {d k : Int} (h : (x.toNat : Int) = y.toNat + d + 2 ^ 40 * k) :
    ∃ m : Int, ((scale x).toNat : Int) = (scale y).toNat + 435 * d + 2 ^ 40 * m := by
  obtain ⟨p, hp⟩ := toNat_scale x
  obtain ⟨q, hq⟩ := toNat_scale y
  exact ⟨x.toNat - y.toNat + 435 * k - 2 ^ 24 * (p - q), by omega⟩

/-- Modulo `2 ^ 40` the prime multiplies a difference by no more than 435. -/
theorem Near.scaled (h : Near r x y) : Near (435 * r) (scale x) (scale y) := by
  obtain ⟨d, k, hd, hr⟩ := h
  obtain ⟨m, hm⟩ := difference_scale hd
  exact ⟨435 * d, m, hm, by omega⟩

/-- As long as a difference does not come round, no byte undoes it. -/
theorem Near.eq_of_takeIn (h : Near r x y) (hr : 435 * r + 255 < 2 ^ 40) {b c : UInt8}
    (he : takeIn (scale x) b = takeIn (scale y) c) : x = y := by
  obtain ⟨d, k, hd, hdr⟩ := h
  obtain ⟨m, hm⟩ := difference_scale hd
  have hfront : (scale x).toNat / 256 = (scale y).toNat / 256 := by
    rw [← toNat_takeIn_div _ b, he, toNat_takeIn_div]
  obtain rfl : m = 0 := by omega
  have hsame : (scale x).toNat = (scale y).toNat := by omega
  exact scale_injective (UInt64.toNat_inj.1 hsame)

/-! ## Some bytes -/

/-- Whether a difference of at most `r` does not come round while `n` more bytes are taken in. -/
def Stays (r : Nat) : Nat → Prop
  | 0 => True
  | n + 1 => 435 * r + 255 < 2 ^ 40 ∧ Stays (435 * r + 510) n

/-- As long as a difference does not come round, the bytes that are taken in can be told from the
hash. -/
theorem Near.eq_of_foldl {bs cs : List UInt8} (h : Near r x y) (hlen : bs.length = cs.length)
    (hstays : Stays r bs.length)
    (he : bs.foldl hashByte (scale x) = cs.foldl hashByte (scale y)) :
    x = y ∧ bs = cs := by
  induction bs generalizing cs r x y with
  | nil =>
    obtain rfl : cs = [] := List.length_eq_zero_iff.1 hlen.symm
    exact ⟨scale_injective he, rfl⟩
  | cons b bs ih =>
    obtain _ | ⟨c, cs⟩ := cs
    · cases hlen
    · obtain ⟨hhere, hlater⟩ := hstays
      rw [List.foldl_cons, List.foldl_cons, hashByte_eq, hashByte_eq] at he
      obtain ⟨hbyte, rfl⟩ := ih (h.scaled.taken b c) (Nat.succ.inj hlen) hlater he
      obtain rfl := h.eq_of_takeIn hhere hbyte
      exact ⟨rfl, by rw [takeIn_injective hbyte]⟩

/-- A difference that a byte makes stays while three more are taken in. -/
theorem stays_of_lt {n : Nat} (h : n < 4) : Stays 510 n := by
  match n, h with
  | 0, _ | 1, _ | 2, _ | 3, _ => simp [Stays]

/-- From the same hash, different bytes lead to different hashes if they are at most four. -/
theorem eq_of_foldl_hashByte (x : UInt64) {bs cs : List UInt8} (hlen : bs.length = cs.length)
    (hfew : bs.length ≤ 4) (he : bs.foldl hashByte x = cs.foldl hashByte x) : bs = cs := by
  obtain _ | ⟨b, bs⟩ := bs
  · exact (List.length_eq_zero_iff.1 hlen.symm).symm
  · obtain _ | ⟨c, cs⟩ := cs
    · cases hlen
    · rw [List.foldl_cons, List.foldl_cons, hashByte_eq, hashByte_eq] at he
      obtain ⟨hbyte, rfl⟩ := ((near_refl x).taken b c).eq_of_foldl (Nat.succ.inj hlen)
        (by rw [Nat.zero_add]; exact stays_of_lt hfew) he
      rw [takeIn_injective hbyte]

/-- The same bytes keep different hashes apart. -/
theorem eq_of_foldl_same {bs : List UInt8} (he : bs.foldl hashByte x = bs.foldl hashByte y) :
    x = y := by
  induction bs generalizing x y with
  | nil => exact he
  | cons b bs ih =>
    have hbyte : takeIn x b = takeIn y b := scale_injective (ih he)
    have := congrArg (· ^^^ b.toUInt64) hbyte
    simpa only [takeIn, UInt64.xor_assoc, UInt64.xor_self, UInt64.xor_zero] using this

/-! ## Indices -/

/-- A byte of a word. -/
def byteAt (w : UInt64) (i : Nat) : UInt8 := (w >>> (8 * i).toUInt64).toUInt8

/-- A byte of a word is one of its digits to the base 256. -/
theorem toNat_byteAt (w : UInt64) {i : Nat} (hi : i < 8) :
    (byteAt w i).toNat = w.toNat / 2 ^ (8 * i) % 256 := by
  have hshift : (8 * i).toUInt64.toNat % 64 = 8 * i := by
    rw [Nat.toUInt64_eq, UInt64.toNat_ofNat']
    omega
  rw [byteAt, UInt64.toNat_toUInt8, UInt64.toNat_shiftRight, hshift, Nat.shiftRight_eq_div_pow]

/-- The four low bytes of a word come before the four high ones. -/
theorem wordBytes_eq (w : UInt64) :
    wordBytes w = (List.range 4).map (byteAt w) ++ (List.range 4).map fun i => byteAt w (i + 4) :=
  rfl

/-- Below `2 ^ 32` the high bytes are zero. -/
theorem highBytes_eq {w : UInt64} (hw : w.toNat < 2 ^ 32) :
    ((List.range 4).map fun i => byteAt w (i + 4)) = List.replicate 4 0 := by
  refine List.eq_replicate_iff.2 ⟨rfl, fun b hb => ?_⟩
  obtain ⟨i, hi, rfl⟩ := List.mem_map.1 hb
  have hlt : i < 4 := List.mem_range.1 hi
  have hsmall : w.toNat < 2 ^ (8 * (i + 4)) :=
    Nat.lt_of_lt_of_le hw (Nat.pow_le_pow_right (by decide) (by omega))
  refine UInt8.toNat_inj.1 ?_
  rw [toNat_byteAt w (by omega), Nat.div_eq_of_lt hsmall]
  rfl

/-- Numbers below 2^32 are told by their four low bytes. -/
theorem eq_of_lowBytes {v w : UInt64} (hv : v.toNat < 2 ^ 32) (hw : w.toNat < 2 ^ 32)
    (h : (List.range 4).map (byteAt v) = (List.range 4).map (byteAt w)) : v = w := by
  have hbyte : ∀ i < 4, v.toNat / 2 ^ (8 * i) % 256 = w.toNat / 2 ^ (8 * i) % 256 := by
    intro i hi
    rw [← toNat_byteAt v (by omega), ← toNat_byteAt w (by omega)]
    exact congrArg UInt8.toNat (List.map_inj_left.1 h i (List.mem_range.2 hi))
  have h0 := hbyte 0 (by decide)
  have h1 := hbyte 1 (by decide)
  have h2 := hbyte 2 (by decide)
  have h3 := hbyte 3 (by decide)
  exact UInt64.toNat_inj.1 (by omega)

/-- Words below `2 ^ 32` can be told from the hash, whatever was taken in before. -/
theorem eq_of_foldl_wordBytes {v w : UInt64} (hv : v.toNat < 2 ^ 32) (hw : w.toNat < 2 ^ 32)
    (he : (wordBytes v).foldl hashByte x = (wordBytes w).foldl hashByte x) : v = w := by
  rw [wordBytes_eq, wordBytes_eq, highBytes_eq hv, highBytes_eq hw, List.foldl_append,
    List.foldl_append] at he
  exact eq_of_lowBytes hv hw (eq_of_foldl_hashByte x rfl (Nat.le_refl 4) (eq_of_foldl_same he))

/-- **Users of a scenario have different seeds.**  Whatever the seed of the run and the name of the
scenario are, no two users with indices below `2 ^ 32` have the same seed. -/
theorem userSeed_ne (seed : UInt64) (scenario : String) {i j : Nat} (hi : i < 2 ^ 32)
    (hj : j < 2 ^ 32) (hne : i ≠ j) :
    userSeed seed scenario i.toUInt64 ≠ userSeed seed scenario j.toUInt64 := by
  have hfits : ∀ n < 2 ^ 32, n.toUInt64.toNat = n := fun n hn =>
    UInt64.toNat_ofNat_of_lt' (Nat.lt_of_lt_of_le hn (by decide))
  intro he
  have hhash := congrArg (seed ^^^ ·) he
  simp only [userSeed, hashBytes, ← UInt64.xor_assoc, UInt64.xor_self, UInt64.zero_xor,
    List.foldl_append] at hhash
  have hwords : i.toUInt64 = j.toUInt64 :=
    eq_of_foldl_wordBytes (by rw [hfits i hi]; exact hi) (by rw [hfits j hj]; exact hj) hhash
  have hnats := congrArg UInt64.toNat hwords
  rw [hfits i hi, hfits j hj] at hnats
  exact hne hnats

/-- The first user and the last one that the indices of 32 bits have room for. -/
theorem userSeed_ne_ends : 0 < 2 ^ 32 ∧ 4_294_967_295 < 2 ^ 32 ∧ 0 ≠ 4_294_967_295 ∧
    userSeed 42 "steady_load" (0).toUInt64 ≠
      userSeed 42 "steady_load" (4_294_967_295).toUInt64 := by
  have hfirst : 0 < 2 ^ 32 := by decide
  have hlast : 4_294_967_295 < 2 ^ 32 := by decide
  exact ⟨hfirst, hlast, by decide, userSeed_ne 42 "steady_load" hfirst hlast (by decide)⟩

end LoadReplay.Random
