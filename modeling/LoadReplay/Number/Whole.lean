/-!
# Whole numbers in text

Reading a number written in ASCII digits, and the two bounds that configuration values have.
`readOn_digits` states that reading undoes writing.
-/

namespace LoadReplay.Number

/-- The value of a digit in a base up to sixteen, if the character is one. -/
def digitValue? (base : Nat) (c : Char) : Option Nat :=
  let v :=
    if '0' ≤ c ∧ c ≤ '9' then some (c.toNat - 48)
    else if 'a' ≤ c ∧ c ≤ 'f' then some (c.toNat - 87)
    else if 'A' ≤ c ∧ c ≤ 'F' then some (c.toNat - 55)
    else none
  v.filter (· < base)

/-- Whether the character is one of the ten decimal digits. -/
def isDigit (c : Char) : Bool := '0' ≤ c && c ≤ '9'

/-- The value of a digit string read on from `acc`, or nothing if a character is no digit. -/
def readOn (base acc : Nat) : List Char → Option Nat
  | [] => some acc
  | c :: rest => (digitValue? base c).bind fun d => readOn base (acc * base + d) rest

/-- The value of a digit string that is not empty. -/
def readDigits (base : Nat) (s : List Char) : Option Nat :=
  if s.isEmpty then none else readOn base 0 s

/-- Reads a count below `limit`: decimal digits, with an optional plus sign in front. -/
def readCount (limit : Nat) (s : List Char) : Option Nat :=
  let digits :=
    match s with
    | '+' :: rest => rest
    | s => s
  (readDigits 10 digits).filter (· < limit)

/-- Counts of users, iterations and seeds take 64 bits. -/
def readCount64 (s : List Char) : Option Nat := readCount (Nat.pow 2 64) s

/-- Response statuses take 16 bits. -/
def readStatus (s : List Char) : Option Nat := readCount (Nat.pow 2 16) s

theorem readOn_append (base acc : Nat) (a b : List Char) :
    readOn base acc (a ++ b) = (readOn base acc a).bind fun v => readOn base v b := by
  induction a generalizing acc with
  | nil => simp [readOn]
  | cons c rest ih =>
    simp only [List.cons_append, readOn]
    cases digitValue? base c with
    | none => rfl
    | some d => simp [ih]

/-- The decimal digits stand for their distance from zero. -/
theorem digitValue?_eq_some {c : Char} {d : Nat} :
    digitValue? 10 c = some d ↔ isDigit c = true ∧ c.toNat - 48 = d := by
  rw [isDigit, Bool.and_eq_true, decide_eq_true_eq, decide_eq_true_eq]
  constructor
  · intro h
    obtain ⟨hvalue, hlt⟩ := Option.filter_eq_some_iff.1 h
    rw [decide_eq_true_eq] at hlt
    split at hvalue
    case isTrue hc => exact ⟨hc, Option.some.inj hvalue⟩
    -- The letters of greater bases stand for ten and more.
    case isFalse =>
      split at hvalue
      case isTrue hc =>
        have hlow : 97 ≤ c.toNat := hc.1
        have hd := Option.some.inj hvalue
        omega
      case isFalse =>
        split at hvalue
        case isTrue hc =>
          have hlow : 65 ≤ c.toNat := hc.1
          have hd := Option.some.inj hvalue
          omega
        case isFalse => cases hvalue
  · rintro ⟨hc, rfl⟩
    have hnine : c.toNat ≤ 57 := hc.2
    refine Option.filter_eq_some_iff.2 ⟨if_pos hc, ?_⟩
    rw [decide_eq_true_eq]
    omega

/-- The digit that core writes for a value reads as that value. -/
theorem digitValue?_digitChar {base d : Nat} (hbase : base ≤ 16) (h : d < base) :
    digitValue? base d.digitChar = some d := by
  have hdigits : ∀ d : Fin 16, digitValue? 16 (Nat.digitChar d) = some d.val := by decide
  have hd := hdigits ⟨d, by omega⟩
  obtain ⟨hvalue, -⟩ := Option.filter_eq_some_iff.1 hd
  exact Option.filter_eq_some_iff.2 ⟨hvalue, decide_eq_true h⟩

/-- Reading the digits of a number gives the number. -/
theorem readOn_digits {base : Nat} (hbase : 1 < base) (hle : base ≤ 16) (n : Nat) :
    readOn base 0 (Nat.toDigits base n) = some n := by
  induction n using Nat.strongRecOn with
  | ind n ih =>
    rcases Nat.lt_or_ge n base with h | h
    · rw [Nat.toDigits_of_lt_base h]
      simp [readOn, digitValue?_digitChar hle h]
    · have hmod : n % base < base := Nat.mod_lt n (by omega)
      rw [Nat.toDigits_of_base_le hbase h, readOn_append,
        ih (n / base) (Nat.div_lt_self (by omega) hbase)]
      simp only [Option.bind_some, readOn, digitValue?_digitChar hle hmod]
      exact congrArg some (by rw [Nat.mul_comm]; exact Nat.div_add_mod n base)

/-- Reading the decimal digits of a number gives the number. -/
theorem readOn_toDigits (n : Nat) : readOn 10 0 (Nat.toDigits 10 n) = some n :=
  readOn_digits (by decide) (by decide) n

/-- The decimal digits of a number are digits. -/
theorem isDigit_of_mem_toDigits {n : Nat} {c : Char} (h : c ∈ Nat.toDigits 10 n) :
    isDigit c = true :=
  Nat.isDigit_of_mem_toDigits (by decide) (by decide) h

end LoadReplay.Number
