import LoadReplay.Json.Numeral
import LoadReplay.Text.Split

/-!
# Tokens of JSON texts

Cutting a text into tokens.  Blanks between tokens are the four ASCII ones; inside a quoted text
every character below the space has to be escaped.
-/

namespace LoadReplay.Json

/-- The quotation mark. -/
def quote : Char := '\x22'

/-- The backslash. -/
def backslash : Char := '\x5c'

/-- What a character behind a backslash stands for. -/
def unescape? (c : Char) : Option Char :=
  if c = quote ∨ c = backslash ∨ c = '/' then some c
  else if c = 'b' then some '\x08'
  else if c = 'f' then some '\x0c'
  else if c = 'n' then some '\n'
  else if c = 'r' then some '\x0d'
  else if c = 't' then some '\t'
  else none

/-- The value of four hexadecimal digits. -/
def hexUnit (a b c d : Char) : Option Nat := Number.readDigits 16 [a, b, c, d]

/-- Whether a 16-bit unit is the first half of a surrogate pair. -/
def isHighHalf (u : Nat) : Bool := 0xD800 ≤ u && u ≤ 0xDBFF

/-- Whether a 16-bit unit is the second half of a surrogate pair. -/
def isLowHalf (u : Nat) : Bool := 0xDC00 ≤ u && u ≤ 0xDFFF

/-- The character of a surrogate pair. -/
def joinHalves (high low : Nat) : Char :=
  Char.ofNat (0x10000 + (high - 0xD800) * 0x400 + (low - 0xDC00))

/-- The characters of a quoted text, or nothing if some half of a pair stands alone; and the rest.
-/
abbrev Scanned := Option (List Char) × List Char

/-- The text with one more character in front. -/
def Scanned.push (c : Char) (s : Scanned) : Scanned := (s.1.map (c :: ·), s.2)

/-- The text spoilt by a half that stands alone. -/
def Scanned.spoil (spoilt : Bool) (s : Scanned) : Scanned := if spoilt then (none, s.2) else s

/-- Reads a quoted text behind its first quotation mark.  `high` is the first half of a surrogate
pair that has just been read. -/
def scanText (high : Option Nat) : List Char → Option Scanned
  | [] => none
  | c :: rest =>
    if c = quote then some (Scanned.spoil high.isSome (some [], rest))
    else if c = backslash then
      match rest with
      | 'u' :: x₃ :: x₂ :: x₁ :: x₀ :: rest =>
        match hexUnit x₃ x₂ x₁ x₀ with
        | none => none
        | some u =>
          match high with
          | some h =>
            if isLowHalf u then (scanText none rest).map (Scanned.push (joinHalves h u))
            else (scanText none rest).map (Scanned.spoil true)
          | none =>
            if isHighHalf u then scanText (some u) rest
            else if isLowHalf u then (scanText none rest).map (Scanned.spoil true)
            else (scanText none rest).map (Scanned.push (Char.ofNat u))
      | e :: rest =>
        match unescape? e with
        | none => none
        | some c => (scanText none rest).map fun s => (s.push c).spoil high.isSome
      | [] => none
    else if c.toNat < 32 then none
    else (scanText none rest).map fun s => (s.push c).spoil high.isSome

@[simp] theorem Scanned.snd_push (c : Char) (s : Scanned) : (s.push c).2 = s.2 := rfl

@[simp] theorem Scanned.snd_spoil (spoilt : Bool) (s : Scanned) : (s.spoil spoilt).2 = s.2 := by
  unfold Scanned.spoil
  split <;> rfl

/-- What stands behind a quoted text is shorter than what began with it. -/
theorem scanText_shorter {high : Option Nat} {s : List Char} {r : Scanned}
    (h : scanText high s = some r) : r.2.length < s.length := by
  fun_induction scanText high s generalizing r with
  | case1 => simp at h
  | case2 =>
    simp only [Option.some.injEq] at h
    simp [← h]
  | _ => grind [Scanned.snd_push, Scanned.snd_spoil, Option.map_eq_some_iff]

/-- Whether a character may stand between tokens. -/
def isSpace (c : Char) : Bool := c == ' ' || c == '\n' || c == '\x0d' || c == '\t'

/-- The marks that are tokens by themselves. -/
def markToken? (c : Char) : Option Token :=
  if c = '[' then some .openList
  else if c = ']' then some .closeList
  else if c = '\x7b' then some .openRecord
  else if c = '\x7d' then some .closeRecord
  else if c = ',' then some .comma
  else if c = ':' then some .colon
  else none

/-- The words that are tokens. -/
def wordTokens : List (List Char × Token) :=
  [("null".toList, .null), ("true".toList, .truth true), ("false".toList, .truth false)]

/-- The word in front of a text, and the rest. -/
def wordToken? (s : List Char) : Option (Token × List Char) :=
  wordTokens.findSome? fun w => (Text.stripStart? w.1 s).map fun rest => (w.2, rest)

/-- The token in front of a text that does not begin with a blank, and the rest. -/
def token? : List Char → Option (Token × List Char)
  | [] => none
  | c :: rest =>
    match markToken? c with
    | some t => some (t, rest)
    | none =>
      if c = quote then
        (scanText none rest).map fun s => (.text (s.1.map String.ofList), s.2)
      else
        (wordToken? (c :: rest)).or
          ((scanNumber (c :: rest)).map fun p => (.number p.1.value, p.2))

/-- Reading a word uses up at least one character. -/
theorem wordToken?_shorter {s : List Char} {p : Token × List Char}
    (h : wordToken? s = some p) : p.2.length < s.length := by
  unfold wordToken? at h
  obtain ⟨w, hw, hp⟩ := List.exists_of_findSome?_eq_some h
  obtain ⟨rest, hr, rfl⟩ := Option.map_eq_some_iff.1 hp
  have hs := Text.stripStart?_eq_some hr
  have hpos : 0 < w.1.length := by
    simp only [wordTokens, List.mem_cons, List.not_mem_nil, or_false] at hw
    rcases hw with rfl | rfl | rfl <;> decide
  rw [hs, List.length_append]
  exact Nat.lt_add_of_pos_left hpos

/-- What stands behind a token is shorter than what began with it. -/
theorem token?_shorter {s : List Char} {p : Token × List Char}
    (h : token? s = some p) : p.2.length < s.length := by
  unfold token? at h
  split at h
  · simp at h
  · split at h
    · simp only [Option.some.injEq] at h
      simp [← h]
    · split at h
      · obtain ⟨r, hr, rfl⟩ := Option.map_eq_some_iff.1 h
        have := scanText_shorter hr
        simp only [List.length_cons]
        omega
      · rcases Option.or_eq_some_iff.1 h with h | ⟨_, h⟩
        · exact wordToken?_shorter h
        · obtain ⟨r, hr, rfl⟩ := Option.map_eq_some_iff.1 h
          exact scanNumber_shorter hr

/-- The tokens of a text. -/
def lex : List Char → Option (List Token)
  | [] => some []
  | c :: rest =>
    if isSpace c then lex rest
    else
      match _h : token? (c :: rest) with
      | none => none
      | some (t, behind) => (lex behind).map (t :: ·)
termination_by s => s.length
decreasing_by
  · exact Nat.lt_succ_self _
  · exact token?_shorter ‹_›

end LoadReplay.Json
