/-!
# Cutting text

Cutting a list of characters at a separator or at a pattern.  Each function returns the parts
around the cut, so that gluing them together again gives the text back: `splitOnce_eq_some` and
`breakAt_eq_some` state it.
-/

namespace LoadReplay.Text

/-- The parts before and after the first occurrence of `sep`, if there is one. -/
def splitOnce (sep : Char) : List Char → Option (List Char × List Char)
  | [] => none
  | c :: rest =>
    if c = sep then some ([], rest)
    else (splitOnce sep rest).map fun p => (c :: p.1, p.2)

/-- A cut keeps the text: it is the first part, the separator and the second part, and the first
part does not hold the separator. -/
theorem splitOnce_eq_some {sep : Char} {s a b : List Char} (h : splitOnce sep s = some (a, b)) :
    s = a ++ sep :: b ∧ sep ∉ a := by
  induction s generalizing a b with
  | nil => simp [splitOnce] at h
  | cons c rest ih =>
    unfold splitOnce at h
    split at h
    · rename_i hc
      simp only [Option.some.injEq, Prod.mk.injEq] at h
      obtain ⟨rfl, rfl⟩ := h
      simp [hc]
    · rename_i hc
      obtain ⟨⟨a', b'⟩, hp, hab⟩ := Option.map_eq_some_iff.1 h
      simp only [Prod.mk.injEq] at hab
      obtain ⟨rfl, rfl⟩ := hab
      obtain ⟨rfl, hn⟩ := ih hp
      exact ⟨rfl, by simp [hn, Ne.symm hc]⟩

/-- The pieces between the occurrences of `sep`; a text without any is its own single piece. -/
def splitAll (sep : Char) : List Char → List (List Char)
  | [] => [[]]
  | c :: rest =>
    if c = sep then [] :: splitAll sep rest
    else match splitAll sep rest with
      | [] => [[c]]
      | piece :: pieces => (c :: piece) :: pieces

/-- The text after `start`, if it begins with it. -/
def stripStart? (start : List Char) (s : List Char) : Option (List Char) :=
  match start, s with
  | [], s => some s
  | p :: ps, c :: cs => if p = c then stripStart? ps cs else none
  | _ :: _, [] => none

/-- The text before `ending`, if it ends with it. -/
def stripEnd? (ending : List Char) (s : List Char) : Option (List Char) :=
  (stripStart? ending.reverse s.reverse).map List.reverse

/-- What is taken off the front stood there. -/
theorem stripStart?_eq_some {start s rest : List Char} (h : stripStart? start s = some rest) :
    s = start ++ rest := by
  induction start generalizing s with
  | nil => simpa [stripStart?] using h
  | cons p ps ih =>
    cases s with
    | nil => simp [stripStart?] at h
    | cons c cs =>
      unfold stripStart? at h
      split at h
      · rename_i hc
        rw [ih h, hc, List.cons_append]
      · simp at h

/-- The parts before and after the first occurrence of the pattern `pat`, if there is one. -/
def breakAt (pat : List Char) : List Char → Option (List Char × List Char)
  | [] => if pat.isEmpty then some ([], []) else none
  | c :: rest =>
    match stripStart? pat (c :: rest) with
    | some after => some ([], after)
    | none => (breakAt pat rest).map fun p => (c :: p.1, p.2)

/-- A break keeps the text: it is the first part, the pattern and the second part. -/
theorem breakAt_eq_some {pat s a b : List Char} (h : breakAt pat s = some (a, b)) :
    s = a ++ pat ++ b := by
  induction s generalizing a b with
  | nil =>
    unfold breakAt at h
    split at h
    · rename_i hp
      simp only [Option.some.injEq, Prod.mk.injEq] at h
      obtain ⟨rfl, rfl⟩ := h
      simp [List.isEmpty_iff.1 hp]
    · simp at h
  | cons c rest ih =>
    unfold breakAt at h
    split at h
    · rename_i after hs
      simp only [Option.some.injEq, Prod.mk.injEq] at h
      obtain ⟨rfl, rfl⟩ := h
      simpa using stripStart?_eq_some hs
    · obtain ⟨⟨a', b'⟩, hp, hab⟩ := Option.map_eq_some_iff.1 h
      simp only [Prod.mk.injEq] at hab
      obtain ⟨rfl, rfl⟩ := hab
      simp [ih hp]

/-- Whether the pattern occurs somewhere in the text. -/
def holds (pat s : List Char) : Bool := (breakAt pat s).isSome

/-- The character with an ASCII capital made small. -/
def lowerChar (c : Char) : Char :=
  if 'A' ≤ c ∧ c ≤ 'Z' then Char.ofNat (c.toNat + 32) else c

/-- The text with its ASCII capitals made small. -/
def lower (s : List Char) : List Char := s.map lowerChar

/-- What holds of the characters up to a bound is tried out, one after another. -/
theorem forall_char_lt {P : Char → Prop} {b : Nat} (h : ∀ n : Fin b, P (Char.ofNat n)) {c : Char}
    (hc : c.toNat < b) : P c := by
  have hsame := h ⟨c.toNat, hc⟩
  rwa [Char.ofNat_toNat] at hsame

/-- Beyond ASCII no character is changed. -/
theorem lowerChar_of_le {c : Char} (h : 0x80 ≤ c.toNat) : lowerChar c = c := by
  refine if_neg fun hcapital => ?_
  have hhigh : c.toNat ≤ 90 := hcapital.2
  omega

/-- The texts with `sep` between each two neighbours. -/
def glue (sep : String) : List String → String
  | [] => ""
  | [s] => s
  | s :: rest => s ++ sep ++ glue sep rest

end LoadReplay.Text
