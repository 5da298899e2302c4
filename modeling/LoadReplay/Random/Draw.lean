import LoadReplay.Random.Stream
import LoadReplay.Span.Basic

/-!
# Random draws

Numbers from a range, permutations and lengths of time, each from the next words of a generator.

A number from a range of `n` values is drawn by multiplying a word with `n`: the upper half of the
product is the number.  So that every value has the same number of words, words whose lower half
falls into the incomplete last part are drawn again.
-/

namespace LoadReplay.Random

/-- A source of words of some width. -/
structure Source where
  width : Nat
  next : Generator → Nat × Generator

/-- Words of 32 bits. -/
def Source.words32 : Source := ⟨32, fun g => let (w, g) := g.next32; (w.toNat, g)⟩

/-- Words of 64 bits. -/
def Source.words64 : Source := ⟨64, fun g => let (w, g) := g.next64; (w.toNat, g)⟩

/-- The greatest lower half that is accepted for a range of `n` values: `n` moved to the left until
its first bit is the first of the word, less one. -/
def Source.zone (s : Source) (n : Nat) : Nat := n * Nat.pow 2 (s.width - (Nat.log2 n + 1)) - 1

/-- Draws until a word is accepted, at most `tries` times; after that the number is zero. -/
def Source.accept (s : Source) (n : Nat) (g : Generator) : Nat → Nat × Generator
  | 0 => (0, g)
  | tries + 1 =>
    let (w, g) := s.next g
    let product := w * n
    if product % Nat.pow 2 s.width ≤ s.zone n then (product / Nat.pow 2 s.width, g)
    else s.accept n g tries

/-- How often a word is drawn for one number.  A stream has as many words: after that it begins
anew, so that whoever has been refused all of them is refused for ever. -/
def maxTries : Nat := Nat.pow 2 68

/-- A number from `low` to `high`. -/
def Source.between (s : Source) (low high : Nat) (g : Generator) : Nat × Generator :=
  let n := high - low + 1
  -- Every word is wanted then, and `n` itself is no word.
  if n = Nat.pow 2 s.width then s.next g
  else
    let (v, g) := s.accept n g maxTries
    (low + v, g)

/-- Swaps the items from place `last` down to the second one, each with one at or before its place.
-/
def shuffleDown {α : Type} (items : Array α) (g : Generator) : Nat → Array α × Generator
  | 0 => (items, g)
  | last + 1 =>
    let (j, g) := Source.words32.between 0 (last + 1) g
    shuffleDown (items.swapIfInBounds (last + 1) j) g last

/-- The items in random order. -/
def shuffled {α : Type} (items : List α) (g : Generator) : List α × Generator :=
  let (items, g) := shuffleDown items.toArray g (items.length - 1)
  (items.toList, g)

/-- The length in nanoseconds, cut down to 64 bits. -/
def clippedNanos (a : Span) : Nat := min a.nanos (Nat.pow 2 64 - 1)

/-- A length from `low` to `high`.  Nothing is drawn if the range has no second value. -/
def spanBetween (low high : Span) (g : Generator) : Span × Generator :=
  if high ≤ low then (low, g)
  else
    let (n, g) := Source.words64.between (clippedNanos low) (clippedNanos high) g
    (.ofWord n.toUInt64, g)

/-- A length up to `high`. -/
def spanUpTo (high : Span) (g : Generator) : Span × Generator := spanBetween .zero high g

/-! ## Seeds of virtual users -/

/-- One byte of a 64-bit hash that multiplies by a prime after each byte. -/
def hashByte (h : UInt64) (b : UInt8) : UInt64 := (h ^^^ b.toUInt64) * 0x100000001b3

/-- The eight bytes of a word, the low one first. -/
def wordBytes (w : UInt64) : List UInt8 :=
  (List.range 8).map fun i => (w >>> (8 * i).toUInt64).toUInt8

/-- The hash of some bytes. -/
def hashBytes (bytes : List UInt8) : UInt64 := bytes.foldl hashByte 0xcbf29ce484222325

/-- The seed of a virtual user: the seed of the run, mixed with a hash of the scenario and the
number of the user. -/
def userSeed (seed : UInt64) (scenario : String) (index : UInt64) : UInt64 :=
  seed ^^^ hashBytes (scenario.toUTF8.toList ++ wordBytes index)

/-- The generator of a virtual user. -/
def Generator.ofUser (seed : UInt64) (scenario : String) (index : UInt64) : Generator :=
  .ofSeed (userSeed seed scenario index)

/-- The generators of the users of a scenario that a seed determines. -/
def Generator.seeded (seed : UInt64) (scenario : String) (index : Nat) : Generator :=
  .ofUser seed scenario index.toUInt64

/-- The generators of the users of a scenario.  In a run without a seed each user has got a key of
its own, from nowhere in the run. -/
def Generator.ofUsers (seed : Option UInt64) (keys : Nat → List UInt32) (scenario : String)
    (index : Nat) : Generator :=
  match seed with
  | some seed => .seeded seed scenario index
  | none => .ofKey (keys index)

end LoadReplay.Random
