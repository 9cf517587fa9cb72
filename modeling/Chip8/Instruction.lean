import Chip8.Word

/-!
# Decoded instructions

Every word stands for exactly one instruction. Words with no assigned meaning
decode to `idle`, which only advances the program counter.
-/

namespace Chip8

/-- The operations of the `8XYN` family. -/
inductive Arithmetic where
  /-- `8XY0`: copy `VY`. -/
  | copy
  /-- `8XY1`: bitwise or. -/
  | or
  /-- `8XY2`: bitwise and. -/
  | and
  /-- `8XY3`: bitwise exclusive or. -/
  | xor
  /-- `8XY4`: sum, with the carry as flag. -/
  | add
  /-- `8XY5`: `VX` less `VY`, with the flag set when nothing is borrowed. -/
  | subtract
  /-- `8XY6`: halve, with the lost bit as flag. -/
  | shiftRight
  /-- `8XY7`: `VY` less `VX`, with the flag set when nothing is borrowed. -/
  | subtractFrom
  /-- `8XYE`: double, with the lost bit as flag. -/
  | shiftLeft
  deriving DecidableEq, Repr

/-- What a word tells the machine to do. -/
inductive Instruction where
  /-- `00E0`: turn every cell of the display off. -/
  | clear
  /-- `00EE`: continue behind the innermost call. -/
  | ret
  /-- `1NNN`: continue at an address. -/
  | jump (target : UInt16)
  /-- `2NNN`: remember this address and continue at another. -/
  | call (target : UInt16)
  /-- `3XNN`: skip the next instruction if `VX` is the operand. -/
  | skipIs (x : Fin 16) (operand : UInt8)
  /-- `4XNN`: skip the next instruction if `VX` is not the operand. -/
  | skipIsNot (x : Fin 16) (operand : UInt8)
  /-- `5XYN`: skip the next instruction if the registers agree. -/
  | skipSame (x y : Fin 16)
  /-- `9XYN`: skip the next instruction if the registers differ. -/
  | skipDifferent (x y : Fin 16)
  /-- `6XNN`: load the operand into `VX`. -/
  | load (x : Fin 16) (operand : UInt8)
  /-- `7XNN`: add the operand to `VX`, leaving the flag alone. -/
  | increase (x : Fin 16) (operand : UInt8)
  /-- `8XYN`: combine `VX` and `VY`. -/
  | arithmetic (operation : Arithmetic) (x y : Fin 16)
  /-- `ANNN`: load an address into `I`. -/
  | loadIndex (target : UInt16)
  /-- `BNNN`: continue at an address plus `V0`. -/
  | jumpOffset (target : UInt16)
  /-- `CXNN`: load a masked random byte into `VX`. -/
  | random (x : Fin 16) (mask : UInt8)
  /-- `DXYN`: draw the sprite of `rows` bytes at `I`. -/
  | draw (x y rows : Fin 16)
  /-- Any word with no assigned meaning. -/
  | idle
  deriving DecidableEq, Repr

namespace Arithmetic

/-- The operation that the last digit of an `8XYN` word selects. -/
def ofDigit (n : Fin 16) : Option Arithmetic :=
  match n.val with
  | 0x0 => some .copy
  | 0x1 => some .or
  | 0x2 => some .and
  | 0x3 => some .xor
  | 0x4 => some .add
  | 0x5 => some .subtract
  | 0x6 => some .shiftRight
  | 0x7 => some .subtractFrom
  | 0xE => some .shiftLeft
  | _ => none

end Arithmetic

namespace Instruction

/-- The meaning of a word. The last digit of a register comparison is not
looked at, and `0NNN` has meaning in two cases only. -/
def decode (w : Word) : Instruction :=
  match w.opcode.val with
  | 0x0 => if w = 0x00E0 then .clear else if w = 0x00EE then .ret else .idle
  | 0x1 => .jump w.nnn
  | 0x2 => .call w.nnn
  | 0x3 => .skipIs w.x w.nn
  | 0x4 => .skipIsNot w.x w.nn
  | 0x5 => .skipSame w.x w.y
  | 0x6 => .load w.x w.nn
  | 0x7 => .increase w.x w.nn
  | 0x8 =>
    match Arithmetic.ofDigit w.n with
    | some operation => .arithmetic operation w.x w.y
    | none => .idle
  | 0x9 => .skipDifferent w.x w.y
  | 0xA => .loadIndex w.nnn
  | 0xB => .jumpOffset w.nnn
  | 0xC => .random w.x w.nn
  | 0xD => .draw w.x w.y w.n
  | _ => .idle

/-- Whether an instruction takes a byte from the random source. -/
def takesByte : Instruction → Bool
  | .random _ _ => true
  | _ => false

end Instruction

end Chip8
