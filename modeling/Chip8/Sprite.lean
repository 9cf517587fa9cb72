/-!
# Sprites

A sprite is a column of bytes. The highest bit of a byte is its leftmost cell.
Drawing inverts the cells of its set bits, row by row from the top.
-/

namespace Chip8.Sprite

/-- The columns of the set bits of a byte, from left to right. -/
def columns (byte : UInt8) : List Nat :=
  (List.range 8).filter fun column => byte.toNat.testBit (7 - column)

/-- The cells of a sprite whose corner lies at a position, in drawing order
and not yet wrapped. -/
def cells (x : Nat) : Nat → List UInt8 → List (Nat × Nat)
  | _, [] => []
  | y, byte :: bytes => (columns byte).map (fun column => (x + column, y)) ++ cells x (y + 1) bytes

end Chip8.Sprite
