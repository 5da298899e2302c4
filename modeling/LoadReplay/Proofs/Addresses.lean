import LoadReplay.Proofs.Trimming
import LoadReplay.Url.Host
import Mathlib.Algebra.GroupWithZero.Nat

/-!
# Texts of addresses

An address is printed so that reading it again gives the address (`readIpv4?_text`,
`readIpv6?_text`), and only addresses that can be printed are read (`lt_of_readIpv4?`,
`eight_of_readIpv6?`).

The eight pieces of an address of the longer kind are printed with a colon between them, and two
colons in place of the first longest run of zeros.  A piece is not empty and has no colon, so two
neighbouring colons are found where that run was, and the number of pieces tells how long it was.
-/

namespace LoadReplay

namespace Number

variable {base acc d v : Nat} {c : Char} {s : List Char}

/-- The value of a digit is less than the base. -/
theorem digitValue?_lt (h : digitValue? base c = some d) : d < base :=
  of_decide_eq_true (Option.filter_eq_some_iff.1 h).2

/-- A number is less than its number of digits allows. -/
theorem readOn_lt (h : readOn base acc s = some v) : v < (acc + 1) * base ^ s.length := by
  induction s generalizing acc with
  | nil =>
    obtain rfl := Option.some.inj h
    rw [List.length_nil, pow_zero, Nat.mul_one]
    exact Nat.lt_succ_self _
  | cons c s ih =>
    obtain ⟨d, hd, hrest⟩ := Option.bind_eq_some_iff.1 h
    have hlt := digitValue?_lt hd
    calc v < (acc * base + d + 1) * base ^ s.length := ih hrest
      _ ≤ ((acc + 1) * base) * base ^ s.length := by
        refine Nat.mul_le_mul_right _ ?_
        rw [Nat.add_mul, Nat.one_mul]
        omega
      _ = (acc + 1) * base ^ (c :: s).length := by
        rw [List.length_cons, pow_succ', Nat.mul_assoc]

/-- Digits in a number are less than the base to the power of their count. -/
theorem readDigits_lt (h : readDigits base s = some v) : v < base ^ s.length := by
  rw [readDigits] at h
  split at h
  · cases h
  · have := readOn_lt h
    rwa [Nat.zero_add, Nat.one_mul] at this

/-- The digits of a number are read back. -/
theorem readDigits_digits (hbase : 1 < base) (hle : base ≤ 16) (n : Nat) :
    readDigits base (Nat.toDigits base n) = some n := by
  rw [readDigits, if_neg fun hempty => Nat.toDigits_ne_nil (List.isEmpty_iff.1 hempty),
    readOn_digits hbase hle]

/-- The digits that numbers are written with. -/
def digitChars : List Char :=
  ['0', '1', '2', '3', '4', '5', '6', '7', '8', '9', 'a', 'b', 'c', 'd', 'e', 'f']

/-- A number is written in the digits of its base. -/
theorem mem_toDigits (hbase : 1 < base) (hle : base ≤ 16) {n : Nat} (h : c ∈ Nat.toDigits base n) :
    c ∈ digitChars := by
  have hdigits : ∀ d : Fin 16, Nat.digitChar d ∈ digitChars := by decide
  induction n using Nat.strongRecOn with
  | ind n ih =>
    rcases Nat.lt_or_ge n base with hn | hn
    · rw [Nat.toDigits_of_lt_base hn] at h
      rw [List.mem_singleton.1 h]
      exact hdigits ⟨n, by omega⟩
    · have hmod : n % base < base := Nat.mod_lt n (by omega)
      rw [Nat.toDigits_of_base_le hbase hn] at h
      rcases List.mem_append.1 h with h | h
      · exact ih (n / base) (Nat.div_lt_self (by omega) hbase) h
      · rw [List.mem_singleton.1 h]
        exact hdigits ⟨n % base, by omega⟩

end Number

namespace Url

/-! ## Pieces -/

/-- The pieces of an address, with colons between them. -/
def joined (pieces : List Nat) : List Char := (Text.glue ":" (pieces.map pieceText)).toList

variable {p : Nat} {pieces rest : List Nat}

/-- A piece has no colon, so colons divide pieces. -/
theorem colon_notMem_pieceText : ':' ∉ (pieceText p).toList := by
  rw [pieceText, String.toList_ofList]
  intro h
  exact absurd (Number.mem_toDigits (by decide) (by decide) h) (by decide)

/-- A piece of sixteen bits is read back. -/
theorem readPiece?_text (h : p < 65536) : readPiece? (pieceText p).toList = some p := by
  have hlength : (Nat.toDigits 16 p).length ≤ 4 :=
    (Nat.length_toDigits_le_iff (by decide) (by decide)).2 (by omega)
  rw [pieceText, String.toList_ofList, readPiece?, if_neg (Nat.not_lt.2 hlength),
    Number.readDigits_digits (by decide) (by decide)]

/-- A piece that was read has sixteen bits, as it has at most four digits. -/
theorem lt_of_readPiece? {s : List Char} (h : readPiece? s = some p) : p < 65536 := by
  rw [readPiece?] at h
  split at h
  · cases h
  · rename_i hlength
    calc p < 16 ^ s.length := Number.readDigits_lt h
      _ ≤ 16 ^ 4 := Nat.pow_le_pow_right (by decide) (Nat.le_of_not_lt hlength)

/-- Pieces are written with a colon between any two. -/
theorem joined_cons_cons (p q : Nat) (rest : List Nat) :
    joined (p :: q :: rest) = (pieceText p).toList ++ ':' :: joined (q :: rest) := by
  have hcolon : ":" = String.singleton ':' := rfl
  rw [joined, joined, hcolon, List.map_cons, List.map_cons, Text.toList_glue_cons]

/-- A piece begins with a digit. -/
theorem exists_joined_cons (p : Nat) (rest : List Nat) :
    ∃ c s, joined (p :: rest) = c :: s ∧ c ≠ ':' := by
  obtain ⟨c, digits, hdigits⟩ : ∃ c digits, (pieceText p).toList = c :: digits := by
    rw [pieceText, String.toList_ofList]
    exact List.exists_cons_of_ne_nil Nat.toDigits_ne_nil
  have hcolon : c ≠ ':' := by
    rintro rfl
    exact colon_notMem_pieceText (hdigits ▸ List.mem_cons_self)
  cases rest with
  | nil => exact ⟨c, digits, hdigits, hcolon⟩
  | cons q rest => exact ⟨c, _, by rw [joined_cons_cons, hdigits]; rfl, hcolon⟩

/-- Between the colons the pieces are found again. -/
theorem splitAll_joined (h : pieces ≠ []) :
    Text.splitAll ':' (joined pieces) = pieces.map fun p => (pieceText p).toList := by
  have hfree : ∀ s ∈ pieces.map pieceText, ':' ∉ s.toList := by
    intro s hs
    obtain ⟨p, -, rfl⟩ := List.mem_map.1 hs
    exact colon_notMem_pieceText
  have hglue := Text.splitAll_glue (by simpa using h) hfree
  rw [List.map_map] at hglue
  exact hglue

/-- All pieces of sixteen bits are read back, wherever they stand. -/
theorem readPieces?_text (tail : Bool) (h : ∀ p ∈ pieces, p < 65536) :
    readPieces? tail (pieces.map fun p => (pieceText p).toList) = some pieces := by
  induction pieces with
  | nil => rfl
  | cons p rest ih =>
    obtain ⟨hp, hrest⟩ := List.forall_mem_cons.1 h
    cases rest with
    | nil =>
      have hpoint : '.' ∉ (pieceText p).toList := by
        rw [pieceText, String.toList_ofList]
        intro hmem
        exact absurd (Number.mem_toDigits (by decide) (by decide) hmem) (by decide)
      rw [List.map_cons, List.map_nil, readPieces?, Text.splitAll_eq_singleton hpoint]
      show (readPiece? _).map _ = _
      rw [readPiece?_text hp]
      rfl
    | cons q rest =>
      have hothers := ih hrest
      rw [List.map_cons] at hothers ⊢
      rw [List.map_cons, readPieces?, readPiece?_text hp, hothers]
      · rfl
      · exact fun h => by cases h

/-- The pieces of a part of an address are read again. -/
theorem readSide?_joined (tail : Bool) (h : ∀ p ∈ pieces, p < 65536) :
    readSide? tail (joined pieces) = some pieces := by
  cases pieces with
  | nil => rfl
  | cons p rest =>
    obtain ⟨c, s, hs, -⟩ := exists_joined_cons p rest
    have hne : ¬(joined (p :: rest)).isEmpty = true := by rw [hs]; exact Bool.noConfusion
    rw [readSide?, if_neg hne, splitAll_joined (List.cons_ne_nil p rest), readPieces?_text tail h]

/-! ## Two colons -/

section TwoColons

variable {s t : List Char} {c : Char}

/-- Two colons are not found in front of the first colon. -/
theorem breakAt_append (hs : ':' ∉ s) :
    Text.breakAt [':', ':'] (s ++ t) =
      (Text.breakAt [':', ':'] t).map fun r => (s ++ r.1, r.2) := by
  induction s with
  | nil => simp
  | cons c s ih =>
    rw [List.mem_cons, not_or] at hs
    obtain ⟨hc, hs⟩ := hs
    rw [List.cons_append, Text.breakAt, Text.stripStart?, if_neg hc, ih hs, Option.map_map]
    rfl

/-- A single colon is not where an address is divided. -/
theorem breakAt_colon (hc : c ≠ ':') :
    Text.breakAt [':', ':'] (':' :: c :: t) =
      (Text.breakAt [':', ':'] (c :: t)).map fun r => (':' :: r.1, r.2) := by
  rw [Text.breakAt, Text.stripStart?, if_pos rfl, Text.stripStart?, if_neg hc.symm]

/-- Pieces have two neighbouring colons only behind them. -/
theorem breakAt_joined (pieces : List Nat) (t : List Char) :
    Text.breakAt [':', ':'] (joined pieces ++ ':' :: ':' :: t) = some (joined pieces, t) := by
  induction pieces with
  | nil => rfl
  | cons p rest ih =>
    cases rest with
    | nil =>
      show Text.breakAt [':', ':'] ((pieceText p).toList ++ ':' :: ':' :: t) = _
      rw [breakAt_append colon_notMem_pieceText]
      show (some ([], t)).map _ = _
      rw [Option.map_some, List.append_nil]
      rfl
    | cons q rest =>
      obtain ⟨c, s, hs, hc⟩ := exists_joined_cons q rest
      rw [hs] at ih
      rw [joined_cons_cons, hs, List.append_assoc, breakAt_append colon_notMem_pieceText]
      show (Text.breakAt [':', ':'] (':' :: c :: (s ++ ':' :: ':' :: t))).map _ = _
      rw [breakAt_colon hc]
      show ((Text.breakAt [':', ':'] (c :: s ++ ':' :: ':' :: t)).map _).map _ = _
      rw [ih]
      rfl

/-- Pieces with a colon between any two are nowhere divided. -/
theorem breakAt_joined_eq_none (pieces : List Nat) :
    Text.breakAt [':', ':'] (joined pieces) = none := by
  induction pieces with
  | nil => rfl
  | cons p rest ih =>
    cases rest with
    | nil =>
      show Text.breakAt [':', ':'] ((pieceText p).toList) = _
      rw [← List.append_nil (pieceText p).toList, breakAt_append colon_notMem_pieceText]
      rfl
    | cons q rest =>
      obtain ⟨c, s, hs, hc⟩ := exists_joined_cons q rest
      rw [hs] at ih
      rw [joined_cons_cons, hs, breakAt_append colon_notMem_pieceText, breakAt_colon hc, ih]
      rfl

end TwoColons

/-! ## The longest run of zeros -/

/-- The zeros in front of the pieces and the rest of them make them up. -/
theorem replicate_zerosInFront (pieces : List Nat) :
    List.replicate (zerosInFront pieces) 0 ++ pieces.drop (zerosInFront pieces) = pieces := by
  have hzeros : pieces.takeWhile (· == 0) = List.replicate (zerosInFront pieces) 0 :=
    List.eq_replicate_iff.2 ⟨rfl, fun p hp =>
      beq_iff_eq.1 (List.mem_takeWhile_imp (p := (· == 0)) hp)⟩
  have htake : pieces.takeWhile (· == 0) = pieces.take (zerosInFront pieces) :=
    List.prefix_iff_eq_take.1 (List.takeWhile_prefix _)
  rw [← hzeros, htake, List.take_append_drop]

/-- The first longest run of zeros stands between the two parts. -/
theorem splitZeros_append {n : Nat} (h : longestZeros pieces = n) (hpos : 0 < n) :
    (splitZeros n pieces).1 ++ List.replicate n 0 ++ (splitZeros n pieces).2 = pieces := by
  induction pieces with
  | nil => rw [longestZeros] at h; omega
  | cons p rest ih =>
    rw [splitZeros]
    by_cases hfront : zerosInFront (p :: rest) = n
    · rw [if_pos hfront, ← hfront]
      exact replicate_zerosInFront (p :: rest)
    · rw [if_neg hfront]
      rw [longestZeros] at h
      exact congrArg (p :: ·) (ih (by omega))

/-! ## Addresses of eight pieces -/

/-- The longest run of at least two zeros is written as two colons. -/
theorem toList_ipv6Text (pieces : List Nat) :
    (ipv6Text pieces).toList =
      if longestZeros pieces < 2 then joined pieces
      else joined (splitZeros (longestZeros pieces) pieces).1 ++
        ':' :: ':' :: joined (splitZeros (longestZeros pieces) pieces).2 := by
  rw [ipv6Text]
  by_cases h : longestZeros pieces < 2
  · rw [if_pos h, if_pos h]
    rfl
  · rw [if_neg h, if_neg h, String.toList_append, String.toList_append, List.append_assoc]
    rfl

/-- What is printed for an address is read as that address. -/
theorem readIpv6?_text (hlength : pieces.length = 8) (h : ∀ p ∈ pieces, p < 65536) :
    readIpv6? (ipv6Text pieces).toList = some pieces := by
  have htwo : "::".toList = [':', ':'] := rfl
  rw [toList_ipv6Text, readIpv6?, htwo]
  by_cases hfew : longestZeros pieces < 2
  · rw [if_pos hfew, breakAt_joined_eq_none]
    show (readSide? true (joined pieces)).filter _ = _
    rw [readSide?_joined true h]
    exact Option.filter_some_pos (by simp [hlength])
  · have hsplit := splitZeros_append (Eq.refl (longestZeros pieces)) (by omega)
    generalize splitZeros (longestZeros pieces) pieces = parts at hsplit ⊢
    obtain ⟨left, right⟩ := parts
    dsimp only at hsplit
    have hlengths := congrArg List.length hsplit
    rw [List.length_append, List.length_append, List.length_replicate, hlength] at hlengths
    have hleft : ∀ p ∈ left, p < 65536 := fun p hp => h p (by rw [← hsplit]; simp [hp])
    have hright : ∀ p ∈ right, p < 65536 := fun p hp => h p (by rw [← hsplit]; simp [hp])
    have hfill : 8 - left.length - right.length = longestZeros pieces := by omega
    rw [if_neg hfew, breakAt_joined]
    show (readSide? false (joined left) >>= fun l =>
      readSide? true (joined right) >>= fun r => _) = _
    rw [readSide?_joined false hleft, readSide?_joined true hright]
    show (if left.length + right.length ≤ 7 then
      some (left ++ List.replicate (8 - left.length - right.length) 0 ++ right) else none) = _
    rw [if_pos (by omega), hfill, hsplit]

/-- A byte that was read is no more than a byte. -/
theorem le_of_readByte? {s : List Char} {n : Nat} (h : readByte? s = some n) : n ≤ 255 := by
  rw [readByte?] at h
  split at h
  · cases h
  · exact of_decide_eq_true (Option.filter_eq_some_iff.1 h).2

/-- Pieces that were read have sixteen bits, those of an address of four bytes at the end included.
-/
theorem lt_of_readPieces? {tail : Bool} {parts : List (List Char)}
    (h : readPieces? tail parts = some pieces) : ∀ p ∈ pieces, p < 65536 := by
  -- Along the reader's recursion; only an IPv4 tail makes two pieces out of four bytes.
  fun_induction readPieces? tail parts generalizing pieces with
  | case1 =>
    obtain rfl := Option.some.inj h
    exact fun _ hp => by cases hp
  | case2 s a b c d =>
    obtain ⟨a', ha, h⟩ := Option.bind_eq_some_iff.1 h
    obtain ⟨b', hb, h⟩ := Option.bind_eq_some_iff.1 h
    obtain ⟨c', hc, h⟩ := Option.bind_eq_some_iff.1 h
    obtain ⟨d', hd, h⟩ := Option.bind_eq_some_iff.1 h
    obtain rfl := Option.some.inj h
    have := le_of_readByte? ha
    have := le_of_readByte? hb
    have := le_of_readByte? hc
    have := le_of_readByte? hd
    intro p hp
    rw [List.mem_cons, List.mem_singleton] at hp
    omega
  | case3 => cases h
  | case4 s =>
    obtain ⟨p, hp, rfl⟩ := Option.map_eq_some_iff.1 h
    intro q hq
    rw [List.mem_singleton.1 hq]
    exact lt_of_readPiece? hp
  | case5 s rest _ ih =>
    obtain ⟨p, hp, h⟩ := Option.bind_eq_some_iff.1 h
    obtain ⟨others, hothers, h⟩ := Option.bind_eq_some_iff.1 h
    obtain rfl := Option.some.inj h
    exact List.forall_mem_cons.2 ⟨lt_of_readPiece? hp, ih hothers⟩

/-- So have those on either side of two colons. -/
theorem lt_of_readSide? {tail : Bool} {s : List Char} (h : readSide? tail s = some pieces) :
    ∀ p ∈ pieces, p < 65536 := by
  rw [readSide?] at h
  split at h
  · obtain rfl := Option.some.inj h
    exact fun _ hp => by cases hp
  · exact lt_of_readPieces? h

/-- An address that is read has eight pieces. -/
theorem eight_of_readIpv6? {s : List Char} (h : readIpv6? s = some pieces) :
    pieces.length = 8 ∧ ∀ p ∈ pieces, p < 65536 := by
  rw [readIpv6?] at h
  split at h
  · obtain ⟨hside, hlength⟩ := Option.filter_eq_some_iff.1 h
    exact ⟨beq_iff_eq.1 hlength, lt_of_readSide? hside⟩
  · obtain ⟨left, hleft, h⟩ := Option.bind_eq_some_iff.1 h
    obtain ⟨right, hright, h⟩ := Option.bind_eq_some_iff.1 h
    split at h
    · obtain rfl := Option.some.inj h
      refine ⟨?_, fun p hp => ?_⟩
      · rw [List.length_append, List.length_append, List.length_replicate]
        omega
      · rcases List.mem_append.1 hp with hp | hp
        · rcases List.mem_append.1 hp with hp | hp
          · exact lt_of_readSide? hleft p hp
          · rw [(List.mem_replicate.1 hp).2]
            decide
        · exact lt_of_readSide? hright p hp
    · cases h

/-- The characters of an address are digits and colons. -/
theorem mem_ipv6Text {c : Char} (h : c ∈ (ipv6Text pieces).toList) :
    c ∈ ':' :: Number.digitChars := by
  have hjoined : ∀ pieces, c ∈ joined pieces →
      c ∈ ':' :: Number.digitChars := by
    intro pieces hc
    rcases Text.mem_glue hc with hc | ⟨s, hs, hc⟩
    · exact List.mem_cons.2 (.inl (List.mem_singleton.1 hc))
    · obtain ⟨p, -, rfl⟩ := List.mem_map.1 hs
      rw [pieceText, String.toList_ofList] at hc
      exact List.mem_cons_of_mem ':' (Number.mem_toDigits (by decide) (by decide) hc)
  rw [toList_ipv6Text] at h
  split at h
  · exact hjoined _ h
  · rw [List.mem_append, List.mem_cons, List.mem_cons] at h
    rcases h with h | rfl | rfl | h
    · exact hjoined _ h
    · exact List.mem_cons_self
    · exact List.mem_cons_self
    · exact hjoined _ h

/-! ## Addresses of four bytes -/

/-- The characters of an address are digits and points. -/
theorem mem_ipv4Text {c : Char} {address : Nat} (h : c ∈ (ipv4Text address).toList) :
    c ∈ '.' :: Number.digitChars := by
  rcases Text.mem_glue h with h | ⟨s, hs, h⟩
  · exact List.mem_cons.2 (.inl (List.mem_singleton.1 h))
  · obtain ⟨shift, -, rfl⟩ := List.mem_map.1 hs
    rw [Nat.toString_eq_ofList_toDigits, String.toList_ofList] at h
    exact List.mem_cons_of_mem '.' (Number.mem_toDigits (by decide) (by decide) h)

/-- Four bytes are written in digits and points. -/
theorem digit_of_mem_ipv4Text {c : Char} {address : Nat} (h : c ∈ (ipv4Text address).toList) :
    Number.isDigit c ∨ c = '.' := by
  rcases Text.mem_glue h with h | ⟨s, hs, h⟩
  · exact .inr (List.mem_singleton.1 h)
  · obtain ⟨shift, -, rfl⟩ := List.mem_map.1 hs
    rw [Nat.toString_eq_ofList_toDigits, String.toList_ofList] at h
    exact .inl (Number.isDigit_of_mem_toDigits h)

/-- The bytes of an address, with points between them. -/
theorem splitAll_ipv4Text (address : Nat) :
    Text.splitAll '.' (ipv4Text address).toList =
      [24, 16, 8, 0].map fun shift => Nat.toDigits 10 (address / Nat.pow 2 shift % 256) := by
  have hpoint : "." = String.singleton '.' := rfl
  rw [ipv4Text, hpoint, Text.splitAll_glue (by simp) fun s hs => ?_, List.map_map]
  · refine List.map_congr_left fun shift _ => ?_
    rw [Function.comp_apply, Nat.toString_eq_ofList_toDigits, String.toList_ofList]
  · obtain ⟨shift, -, rfl⟩ := List.mem_map.1 hs
    rw [Nat.toString_eq_ofList_toDigits, String.toList_ofList]
    exact fun h => absurd (Number.mem_toDigits (by decide) (by decide) h) (by decide)

/-- Only the number zero begins with a zero. -/
theorem head?_toDigits {n : Nat} (h : n ≠ 0) : (Nat.toDigits 10 n).head? ≠ some '0' := by
  induction n using Nat.strongRecOn with
  | ind n ih =>
    rcases Nat.lt_or_ge n 10 with hlt | hge
    · have hdigits : ∀ d : Fin 10, d.val ≠ 0 → Nat.digitChar d ≠ '0' := by decide
      rw [Nat.toDigits_of_lt_base hlt]
      exact fun hzero => hdigits ⟨n, hlt⟩ h (Option.some.inj hzero)
    · rw [Nat.toDigits_of_base_le (by decide) hge,
        List.head?_append_of_ne_nil _ Nat.toDigits_ne_nil]
      exact ih (n / 10) (by omega) (by omega)

/-- The digits of a number are not taken for octal ones. -/
theorem ipv4Number?_digits {n : Nat} (h : n < 256) :
    ipv4Number? (Nat.toDigits 10 n) = some (some n) := by
  rcases Nat.eq_zero_or_pos n with rfl | hpos
  · rfl
  · have hhead := head?_toDigits (Nat.pos_iff_ne_zero.1 hpos)
    have hne : (Nat.toDigits 10 n).isEmpty = false :=
      List.isEmpty_eq_false_iff.2 Nat.toDigits_ne_nil
    have hread := Number.readDigits_digits (show 1 < 10 by decide) (by decide) n
    generalize Nat.toDigits 10 n = s at hhead hne hread ⊢
    unfold ipv4Number?
    dsimp only
    split
    · cases hne
    · exact absurd rfl hhead
    · exact absurd rfl hhead
    · exact absurd rfl hhead
    · rw [hne, if_neg Bool.false_ne_true, hread]
      exact congrArg some (if_pos (Nat.lt_trans h (by decide)))

/-- Between its points an address of four bytes has the digits of each. -/
theorem labels_ipv4Text (address : Nat) :
    labels (ipv4Text address).toList =
      [24, 16, 8, 0].map fun shift => Nat.toDigits 10 (address / Nat.pow 2 shift % 256) := by
  have hlast : ¬some (Nat.toDigits 10 (address / Nat.pow 2 0 % 256)) = some [] := fun h =>
    Nat.toDigits_ne_nil (Option.some.inj h)
  rw [labels, splitAll_ipv4Text]
  exact if_neg hlast

/-- The number that the parts of an address make: the last one fills the bytes that the others
leave. -/
def ofParts (front : List Nat) (last : Nat) : Nat :=
  (List.zipWith (fun n shift => n * Nat.pow 2 shift) front [24, 16, 8]).foldr (· + ·) last

/-- The places of the bytes in an address. -/
theorem shifts : Nat.pow 2 24 = 16777216 ∧ Nat.pow 2 16 = 65536 ∧ Nat.pow 2 8 = 256 :=
  ⟨rfl, rfl, rfl⟩

/-- How much is left for the last number of an address with fewer than four of them. -/
theorem leftBytes : Nat.pow 256 3 = 16777216 ∧ Nat.pow 256 2 = 65536 ∧ Nat.pow 256 1 = 256 :=
  ⟨rfl, rfl, rfl⟩

/-- Each part in front has a place of its own. -/
theorem ofParts_eq (last : Nat) : (∀ x, ofParts [x] last = x * 16777216 + last) ∧
    (∀ x y, ofParts [x, y] last = x * 16777216 + (y * 65536 + last)) ∧
    ∀ x y z front, ofParts (x :: y :: z :: front) last =
      x * 16777216 + (y * 65536 + (z * 256 + last)) := by
  refine ⟨fun x => ?_, fun x y => ?_, fun x y z front => ?_⟩
  · rw [ofParts, List.zipWith_cons_cons, List.zipWith_nil_left, List.foldr_cons, List.foldr_nil,
      shifts.1]
  · rw [ofParts, List.zipWith_cons_cons, List.zipWith_cons_cons, List.zipWith_nil_left,
      List.foldr_cons, List.foldr_cons, List.foldr_nil, shifts.1, shifts.2.1]
  · rw [ofParts, List.zipWith_cons_cons, List.zipWith_cons_cons, List.zipWith_cons_cons,
      List.zipWith_nil_right, List.foldr_cons, List.foldr_cons, List.foldr_cons, List.foldr_nil,
      shifts.1, shifts.2.1, shifts.2.2]

/-- What is read as an address: bytes, and a last number that fills what is left. -/
theorem readIpv4?_eq_some {s : List Char} {address : Nat} :
    readIpv4? s = some address ↔ (labels s).length ≤ 4 ∧ ∃ front last,
      (labels s).mapM (fun p => (ipv4Number? p).bind id) = some (front ++ [last]) ∧
      last < Nat.pow 256 (4 - front.length) ∧ (∀ n ∈ front, n ≤ 255) ∧
      ofParts front last = address := by
  -- The `do` block as a chain of binds, so that both directions can follow it.
  have hread : readIpv4? s = if 4 < (labels s).length then none else
      ((labels s).mapM fun p => (ipv4Number? p).bind id).bind fun numbers =>
        numbers.getLast?.bind fun last =>
          if Nat.pow 256 (4 - numbers.dropLast.length) ≤ last ∨ numbers.dropLast.any (255 < ·)
          then none else some (ofParts numbers.dropLast last) := rfl
  rw [hread]
  constructor
  · intro h
    split at h
    · cases h
    · rename_i hfour
      obtain ⟨numbers, hmap, h⟩ := Option.bind_eq_some_iff.1 h
      obtain ⟨last, hlast, h⟩ := Option.bind_eq_some_iff.1 h
      obtain ⟨front, rfl⟩ := List.getLast?_eq_some_iff.1 hlast
      rw [List.dropLast_concat] at h
      split at h
      · cases h
      · rename_i hfits
        rw [not_or, Nat.not_le, Bool.not_eq_true, List.any_eq_false] at hfits
        exact ⟨Nat.le_of_not_lt hfour, front, last, hmap, hfits.1,
          fun n hn => by simpa using hfits.2 n hn, Option.some.inj h⟩
  · rintro ⟨hfour, front, last, hmap, hlast, hfront, rfl⟩
    rw [if_neg (Nat.not_lt.2 hfour), hmap, Option.bind_some, List.getLast?_concat,
      Option.bind_some, List.dropLast_concat]
    refine if_neg ?_
    rw [not_or, Nat.not_le, Bool.not_eq_true, List.any_eq_false]
    exact ⟨hlast, fun n hn => by simpa using hfront n hn⟩

/-- What is printed for an address is read as that address. -/
theorem readIpv4?_text {address : Nat} (h : address < 2 ^ 32) :
    readIpv4? (ipv4Text address).toList = some address := by
  have hmod : ∀ n, n % 256 < 256 := fun n => Nat.mod_lt n (by decide)
  rw [readIpv4?_eq_some, labels_ipv4Text]
  refine ⟨Nat.le_refl 4, [24, 16, 8].map fun shift => address / Nat.pow 2 shift % 256,
    address / Nat.pow 2 0 % 256, ?_, ?_, fun n hn => ?_, ?_⟩
  · simp only [List.map_cons, List.map_nil, List.mapM_cons, List.mapM_nil,
      ipv4Number?_digits (hmod _)]
    rfl
  · show _ < Nat.pow 256 1
    rw [leftBytes.2.2]
    exact hmod _
  · obtain ⟨shift, -, rfl⟩ := List.mem_map.1 hn
    exact Nat.le_of_lt_succ (hmod _)
  · have hone : Nat.pow 2 0 = 1 := rfl
    rw [List.map_cons, List.map_cons, List.map_cons, (ofParts_eq _).2.2, shifts.1, shifts.2.1,
      shifts.2.2, hone]
    omega

/-- An address that is read has four bytes. -/
theorem lt_of_readIpv4? {s : List Char} {address : Nat} (h : readIpv4? s = some address) :
    address < 2 ^ 32 := by
  obtain ⟨-, front, last, -, hlast, hfront, rfl⟩ := readIpv4?_eq_some.1 h
  -- One case for each number of leading bytes, as the last part takes up all the bytes that are
  -- left.
  cases front with
  | nil => exact hlast
  | cons x front =>
    have hx := hfront x (by simp)
    cases front with
    | nil =>
      have hlast' : last < Nat.pow 256 3 := hlast
      rw [leftBytes.1] at hlast'
      rw [(ofParts_eq last).1]
      omega
    | cons y front =>
      have hy := hfront y (by simp)
      cases front with
      | nil =>
        have hlast' : last < Nat.pow 256 2 := hlast
        rw [leftBytes.2.1] at hlast'
        rw [(ofParts_eq last).2.1]
        omega
      | cons z front =>
        have hz := hfront z (by simp)
        have hleft : 4 - (x :: y :: z :: front).length ≤ 1 := by
          rw [List.length_cons, List.length_cons, List.length_cons]
          omega
        have hlast' : last < 256 :=
          Nat.lt_of_lt_of_le hlast (Nat.pow_le_pow_right (n := 256) (by decide) hleft)
        rw [(ofParts_eq last).2.2]
        omega

end Url

end LoadReplay
