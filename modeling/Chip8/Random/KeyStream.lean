/-!
# The key stream

A block of the stream mixes sixteen words: four constants, an eight-word key,
a 64-bit block number and two zeros. Six double rounds of quarter rounds are
applied and the unmixed words are added back. The stream is the concatenation
of its blocks, so each word of it is a function of the key and its position.
-/

namespace Chip8.Random

/-- The eight words that determine a stream. -/
abbrev Key := Vector UInt32 8

/-- The sixteen words a block is mixed from and consists of. -/
abbrev Block := Vector UInt32 16

namespace Key

/-- The constants of the linear recurrence that spreads a seed. -/
def multiplier : UInt64 := 6364136223846793005

/-- The increment of the linear recurrence. -/
def increment : UInt64 := 11634580027462260723

/-- The recurrence after a number of advances from the seed. -/
def spread (seed : UInt64) : Nat → UInt64
  | 0 => seed
  | n + 1 => spread seed n * multiplier + increment

/-- A word drawn from a state: its high bits are folded down and rotated by an
amount that the topmost five bits give. -/
def fold (state : UInt64) : UInt32 :=
  let folded := (((state >>> 18) ^^^ state) >>> 27).toUInt32
  let turn := (state >>> 59).toUInt32
  (folded >>> turn) ||| (folded <<< ((32 - turn) % 32))

/-- The key of a 64-bit seed. -/
def ofSeed (seed : UInt64) : Key :=
  Vector.ofFn fun i => fold (spread seed (i.val + 1))

end Key

/-- Rotate a word towards its high end. -/
def rotateLeft (w : UInt32) (k : UInt32) : UInt32 :=
  (w <<< k) ||| (w >>> (32 - k))

/-- Mix four of the sixteen words. -/
def quarterRound (s : Block) (a b c d : Fin 16) : Block :=
  let s := s.setIfInBounds a (s.get a + s.get b)
  let s := s.setIfInBounds d (rotateLeft (s.get d ^^^ s.get a) 16)
  let s := s.setIfInBounds c (s.get c + s.get d)
  let s := s.setIfInBounds b (rotateLeft (s.get b ^^^ s.get c) 12)
  let s := s.setIfInBounds a (s.get a + s.get b)
  let s := s.setIfInBounds d (rotateLeft (s.get d ^^^ s.get a) 8)
  let s := s.setIfInBounds c (s.get c + s.get d)
  s.setIfInBounds b (rotateLeft (s.get b ^^^ s.get c) 7)

/-- Mix the columns, then the diagonals. -/
def doubleRound (s : Block) : Block :=
  let s := quarterRound s 0 4 8 12
  let s := quarterRound s 1 5 9 13
  let s := quarterRound s 2 6 10 14
  let s := quarterRound s 3 7 11 15
  let s := quarterRound s 0 5 10 15
  let s := quarterRound s 1 6 11 12
  let s := quarterRound s 2 7 8 13
  quarterRound s 3 4 9 14

/-- The unmixed words of a block. -/
def blockInput (key : Key) (number : UInt64) : Block :=
  #v[0x61707865, 0x3320646e, 0x79622d32, 0x6b206574,
    key[0], key[1], key[2], key[3], key[4], key[5], key[6], key[7],
    number.toUInt32, (number >>> 32).toUInt32, 0, 0]

/-- The words of a block. -/
def block (key : Key) (number : UInt64) : Block :=
  let input := blockInput key number
  let mixed := (List.range 6).foldl (fun s _ => doubleRound s) input
  Vector.zipWith (· + ·) mixed input

/-- The word of the stream at a position. -/
def keyStream (key : Key) (position : Nat) : UInt32 :=
  (block key (UInt64.ofNat (position / 16)))[Fin.ofNat 16 position]

end Chip8.Random
