import Chip8.Text.Hex

/-!
# Instruction words

A program is a sequence of 16-bit words, stored high byte first. The fields of
a word are its four hexadecimal digits `OXYN`, its low byte `NN` and its low
twelve bits `NNN`.
-/

namespace Chip8

/-- A fetched 16-bit instruction word. -/
abbrev Word := UInt16

/-- The instance by which sixteen is not zero, under a name. Digits and register numbers are
numerals below sixteen and need it; with a name they all refer to it alike, whatever else
their module imports. -/
instance instNeZeroSixteen : @NeZero Nat Zero.ofOfNat0 16 := Nat.instNeZeroSucc

namespace Word

/-- The word whose high byte comes first. -/
def ofBytes (high low : UInt8) : Word :=
  UInt16.ofNat (256 * high.toNat + low.toNat)

/-- The first digit, which selects the family of the instruction. -/
def opcode (w : Word) : Fin 16 := Fin.ofNat 16 (w.toNat / 4096)

/-- The second digit, naming the register `VX`. -/
def x (w : Word) : Fin 16 := Fin.ofNat 16 (w.toNat / 256)

/-- The third digit, naming the register `VY`. -/
def y (w : Word) : Fin 16 := Fin.ofNat 16 (w.toNat / 16)

/-- The last digit, which counts the rows of a sprite and selects an
arithmetic operation. -/
def n (w : Word) : Fin 16 := Fin.ofNat 16 w.toNat

/-- The low byte, an immediate operand. -/
def nn (w : Word) : UInt8 := UInt8.ofNat w.toNat

/-- The low twelve bits, an address. -/
def nnn (w : Word) : UInt16 := UInt16.ofNat (w.toNat % 4096)

/-- The high byte as it is stored in memory. -/
def highByte (w : Word) : UInt8 := UInt8.ofNat (w.toNat / 256)

/-- The text that shows a word to a person. -/
def shown (w : Word) : String := "Instruction(0x" ++ Text.hex 4 w.toNat ++ ")"

/-- The bytes of a word are stored without loss. -/
theorem toNat_ofBytes (high low : UInt8) :
    (ofBytes high low).toNat = 256 * high.toNat + low.toNat := by
  have hh := high.toNat_lt
  have hl := low.toNat_lt
  simp only [ofBytes, UInt16.toNat_ofNat']
  omega

/-- An address field lies inside the twelve-bit address space. -/
theorem toNat_nnn_lt (w : Word) : w.nnn.toNat < 4096 := by
  simp only [nnn, UInt16.toNat_ofNat']
  omega

end Word

end Chip8
