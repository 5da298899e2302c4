/-!
# SHA3-256

The hash function of FIPS 202 with an output of 256 bits.
-/

namespace LoadReplay.Digest

/-- The 25 lanes of the state; the lane at column `x` and row `y` stands at `x + 5 y`. -/
abbrev Lanes := Array UInt64

/-- The lane at a place. -/
def Lanes.at (s : Lanes) (i : Nat) : UInt64 := s.getD i 0

/-- The bits moved up, those that leave coming in at the bottom. -/
def rotate (x : UInt64) (n : Nat) : UInt64 :=
  if n = 0 then x else (x <<< n.toUInt64) ||| (x >>> (64 - n).toUInt64)

/-- Adds to every lane the parities of two neighbouring columns. -/
def theta (s : Lanes) : Lanes :=
  let column (x : Nat) : UInt64 :=
    s.at x ^^^ s.at (x + 5) ^^^ s.at (x + 10) ^^^ s.at (x + 15) ^^^ s.at (x + 20)
  let parity (x : Nat) : UInt64 := column ((x + 4) % 5) ^^^ rotate (column ((x + 1) % 5)) 1
  Array.ofFn (n := 25) fun i => s.at i ^^^ parity (i % 5)

/-- How far the lane at each place is rotated. -/
def offsets : List Nat :=
  [0, 1, 62, 28, 27, 36, 44, 6, 55, 20, 3, 10, 43, 25, 39, 41, 45, 15, 21, 8, 18, 2, 61, 56, 14]

/-- Rotates each lane and moves it to another place. -/
def rhoPi (s : Lanes) : Lanes :=
  Array.ofFn (n := 25) fun i =>
    let x := i.val % 5
    let y := i.val / 5
    let source := (x + 3 * y) % 5 + 5 * x
    rotate (s.at source) (offsets.getD source 0)

/-- Mixes each lane with the next two of its row. -/
def chi (s : Lanes) : Lanes :=
  Array.ofFn (n := 25) fun i =>
    let row := 5 * (i.val / 5)
    let x := i.val % 5
    s.at i ^^^ ((s.at (row + (x + 1) % 5) ^^^ 0xFFFFFFFFFFFFFFFF) &&& s.at (row + (x + 2) % 5))

/-- The constants of the rounds. -/
def roundConstants : List UInt64 :=
  [0x0000000000000001, 0x0000000000008082, 0x800000000000808A, 0x8000000080008000,
    0x000000000000808B, 0x0000000080000001, 0x8000000080008081, 0x8000000000008009,
    0x000000000000008A, 0x0000000000000088, 0x0000000080008009, 0x000000008000000A,
    0x000000008000808B, 0x800000000000008B, 0x8000000000008089, 0x8000000000008003,
    0x8000000000008002, 0x8000000000000080, 0x000000000000800A, 0x800000008000000A,
    0x8000000080008081, 0x8000000000008080, 0x0000000080000001, 0x8000000080008008]

/-- One round. -/
def round (s : Lanes) (constant : UInt64) : Lanes :=
  let s := chi (rhoPi (theta s))
  s.setIfInBounds 0 (s.at 0 ^^^ constant)

/-- The permutation of the state. -/
def permute (s : Lanes) : Lanes := roundConstants.foldl round s

/-- The number of bytes that are taken in at a time. -/
def rate : Nat := 136

/-- The message filled up to whole blocks. -/
def pad (message : List UInt8) : List UInt8 :=
  let missing := rate - message.length % rate
  -- The first and the last byte of the padding may be the same one.
  if missing = 1 then message ++ [0x86]
  else message ++ [0x06] ++ List.replicate (missing - 2) 0 ++ [0x80]

/-- The word of up to eight bytes, the low one first. -/
def word (bytes : List UInt8) : UInt64 := bytes.foldr (fun b w => w * 256 + b.toUInt64) 0

/-- Takes in a block. -/
def absorb (s : Lanes) (block : List UInt8) : Lanes :=
  permute (Array.ofFn (n := 25) fun i => s.at i ^^^ word ((block.drop (8 * i)).take 8))

/-- Takes in `count` blocks. -/
def absorbAll : Nat → Lanes → List UInt8 → Lanes
  | 0, s, _ => s
  | count + 1, s, bytes => absorbAll count (absorb s (bytes.take rate)) (bytes.drop rate)

/-- The hash of a message. -/
def sha3 (message : List UInt8) : List UInt8 :=
  let padded := pad message
  let s := absorbAll (padded.length / rate) (Array.replicate 25 0) padded
  (List.range 32).map fun i => (s.at (i / 8) >>> (8 * (i % 8)).toUInt64).toUInt8

/-- Bytes in lower case hexadecimal. -/
def hexadecimal (bytes : List UInt8) : String :=
  String.ofList (bytes.flatMap fun b =>
    [Nat.digitChar (b.toNat / 16), Nat.digitChar (b.toNat % 16)])

end LoadReplay.Digest
