import Chip8.Random.KeyStream

/-!
# The random source

A source is a key and the number of words already taken from its stream. The
next byte is the low byte of the next word, so what a source yields depends on
nothing but its key and how often it was asked.
-/

namespace Chip8.Random

/-- A stream and a position in it. -/
structure Source where
  /-- The key of the stream. -/
  key : Key
  /-- How many words have been taken. -/
  taken : Nat
  deriving DecidableEq

namespace Source

/-- The source at the start of a stream. -/
def start (key : Key) : Source := ⟨key, 0⟩

/-- The source at the start of the stream of a seed. -/
def seeded (seed : UInt64) : Source := start (Key.ofSeed seed)

/-- The byte that is taken next. -/
def byte (s : Source) : UInt8 := (keyStream s.key s.taken).toUInt8

/-- The source once the next byte has been taken. -/
def next (s : Source) : Source := { s with taken := s.taken + 1 }

end Source

end Chip8.Random
