import LoadReplay.Number.Layout

/-!
# A fixed number of decimal places

The exact value of a binary64 number, rounded once to a set number of places; a half goes to the
even neighbour.
-/

namespace LoadReplay.Number

/-- The quotient rounded to the nearest whole number, a half to the even one. -/
def divNearest (num den : Nat) : Nat :=
  let q := num / den
  let twice := 2 * (num % den)
  if den < twice ∨ (twice = den ∧ q % 2 = 1) then q + 1 else q

/-- A rounded quotient is within half a unit of the quotient. -/
theorem divNearest_near (num den : Nat) (h : 0 < den) :
    2 * num ≤ 2 * (divNearest num den * den) + den ∧
      2 * (divNearest num den * den) ≤ 2 * num + den := by
  have hd := Nat.div_add_mod num den
  have hm := Nat.mod_lt num h
  have hq : num / den * den = den * (num / den) := Nat.mul_comm _ _
  unfold divNearest
  simp only
  split
  · rename_i hc
    have : (num / den + 1) * den = num / den * den + den := Nat.succ_mul _ _
    omega
  · rename_i hc
    omega

/-- A whole number of hundredths and the like: the last `places` digits stand behind the point. -/
def withPlaces (places n : Nat) : String :=
  let digits := Nat.toDigits 10 n
  let padded := List.replicate (places + 1 - digits.length) '0' ++ digits
  let whole := padded.length - places
  if places = 0 then String.ofList padded
  else String.ofList (padded.take whole) ++ "." ++ String.ofList (padded.drop whole)

/-- A value with `places` digits behind the point. -/
def fixedText (places : Nat) (x : Float) : String :=
  match parts x with
  | .nan => plainLayout.notANumber
  | .infinite negative => (if negative then "-" else "") ++ plainLayout.infinity
  | .finite negative m e =>
    let f := fraction m e
    (if negative then "-" else "") ++ withPlaces places (divNearest (f.1 * Nat.pow 10 places) f.2)

end LoadReplay.Number
