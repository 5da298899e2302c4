/-!
# A stream of random words

The words that one seed determines: the key stream of the ChaCha cipher with twelve rounds, a 64-bit
block counter and no nonce.  A generator is a key and a position in its stream, so the words drawn
depend on the seed and on how many were drawn before, and on nothing else.
-/

namespace LoadReplay.Random

/-- The words of a cipher block. -/
abbrev Block := Array UInt32

/-- The word at a place. -/
def Block.at (b : Block) (i : Nat) : UInt32 := b.getD i 0

/-- The bits moved to the left, those that leave coming in on the right. -/
def rotateLeft (x n : UInt32) : UInt32 := (x <<< n) ||| (x >>> (32 - n))

/-- The bits moved to the right, those that leave coming in on the left. -/
def rotateRight (x n : UInt32) : UInt32 := (x >>> n) ||| (x <<< ((32 - n) % 32))

/-- Adds one word to another and mixes the sum into a third. -/
def mix (s : Block) (a b d : Nat) (n : UInt32) : Block :=
  let x := s.at a + s.at b
  (s.setIfInBounds a x).setIfInBounds d (rotateLeft (s.at d ^^^ x) n)

/-- Mixes four words. -/
def quarterRound (s : Block) (a b c d : Nat) : Block :=
  mix (mix (mix (mix s a b d 16) c d b 12) a b d 8) c d b 7

/-- Mixes the columns of a block and then its diagonals. -/
def doubleRound (s : Block) : Block :=
  let s := quarterRound s 0 4 8 12
  let s := quarterRound s 1 5 9 13
  let s := quarterRound s 2 6 10 14
  let s := quarterRound s 3 7 11 15
  let s := quarterRound s 0 5 10 15
  let s := quarterRound s 1 6 11 12
  let s := quarterRound s 2 7 8 13
  quarterRound s 3 4 9 14

/-- `n` double rounds. -/
def rounds : Nat → Block → Block
  | 0, s => s
  | n + 1, s => rounds n (doubleRound s)

/-- The constant words of a block. -/
def constants : List UInt32 := [0x61707865, 0x3320646e, 0x79622d32, 0x6b206574]

/-- The block with the given number in the stream of a key of eight words. -/
def block (key : List UInt32) (number : UInt64) : Block :=
  let s : Block := (constants ++ key ++ [number.toUInt32, (number >>> 32).toUInt32, 0, 0]).toArray
  Array.zipWith (· + ·) s (rounds 6 s)

/-- A step of the generator that spreads a seed over a key. -/
def spread (s : UInt64) : UInt64 := s * 6364136223846793005 + 11634580027462260723

/-- The word that a state of that generator gives. -/
def spreadWord (s : UInt64) : UInt32 :=
  rotateRight (((s >>> 18) ^^^ s) >>> 27).toUInt32 (s >>> 59).toUInt32

/-- `n` words of that generator. -/
def spreadWords : Nat → UInt64 → List UInt32
  | 0, _ => []
  | n + 1, s => spreadWord (spread s) :: spreadWords n (spread s)

/-- A place in the stream of a seed. -/
structure Generator where
  key : List UInt32
  /-- How many words were drawn. -/
  position : Nat
  /-- The block that the next word is in, once a word of it was drawn. -/
  current : Block

/-- The beginning of the stream of a key. -/
def Generator.ofKey (key : List UInt32) : Generator := ⟨key, 0, #[]⟩

/-- The beginning of the stream of a seed. -/
def Generator.ofSeed (seed : UInt64) : Generator := .ofKey (spreadWords 8 seed)

/-- The next word. -/
def Generator.next32 (g : Generator) : UInt32 × Generator :=
  let within := g.position % 16
  let current :=
    if within = 0 then block g.key (g.position / 16).toUInt64 else g.current
  (current.at within, { g with position := g.position + 1, current })

/-- The next two words as one, the first one low. -/
def Generator.next64 (g : Generator) : UInt64 × Generator :=
  let (low, g) := g.next32
  let (high, g) := g.next32
  (low.toUInt64 ||| (high.toUInt64 <<< 32), g)

end LoadReplay.Random
