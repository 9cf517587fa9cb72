import Chip8.CallStack
import Chip8.Error
import Chip8.Framebuffer
import Chip8.Instruction
import Chip8.Memory

/-!
# The machine

The state that programs act on: memory, sixteen data registers, the address
register `I`, the program counter, the call stack and the display, with the
word fetched last and the length of the program loaded last. Memory is written
by loads only.
-/

namespace Chip8

/-- The register that receives carries, borrows, lost bits and collisions. -/
def flagRegister : Fin 16 := 0xF

/-- The visible state of a machine. -/
structure Machine where
  /-- All bytes of memory. -/
  memory : Memory
  /-- The data registers. -/
  v : Vector UInt8 16
  /-- The address register. -/
  i : UInt16
  /-- The address of the next instruction. -/
  pc : UInt16
  /-- The addresses of the calls that have not returned. -/
  calls : CallStack
  /-- The display. -/
  display : Framebuffer
  /-- The word fetched last. -/
  word : Word
  /-- The address of the word fetched last. -/
  wordAddress : UInt16
  /-- The length of the program loaded last. -/
  programLength : Nat
  deriving DecidableEq

namespace Machine

/-- A machine that is switched on. -/
def initial : Machine where
  memory := .zero
  v := Vector.replicate 16 0
  i := 0
  pc := programOrigin
  calls := .empty
  display := .blank
  word := 0
  wordAddress := programOrigin
  programLength := 0

/-- Load a program at an address if it fits there. Nothing but its bytes and
the recorded length changes. -/
def load (m : Machine) (program : List UInt8) (origin : UInt16) :
    Except EngineError Machine :=
  if origin.toNat + program.length ≤ memorySize then
    .ok { m with
      memory := m.memory.overlay origin.toNat program
      programLength := program.length }
  else .error (.programTooLarge origin program.length)

/-- The byte at an address; past the end of memory there are zeros. -/
def byteAt (m : Machine) (address : Nat) : UInt8 := m.memory.byteAt address

/-- The word at the program counter, high byte first. -/
def fetch (m : Machine) : Word :=
  Word.ofBytes (m.byteAt m.pc.toNat) (m.byteAt (m.pc.toNat + 1))

/-- The machine with the word at the program counter fetched. -/
def fetched (m : Machine) : Machine := { m with word := m.fetch, wordAddress := m.pc }

/-- Whether the program counter has left memory. -/
def pastEnd (m : Machine) : Bool := decide (memorySize ≤ m.pc.toNat)

/-- Write a data register. -/
def setV (m : Machine) (x : Fin 16) (byte : UInt8) : Machine :=
  { m with v := m.v.setIfInBounds x byte }

/-- Write the flag as one or zero. -/
def setFlag (m : Machine) (flag : Bool) : Machine :=
  m.setV flagRegister (if flag then 1 else 0)

/-- Continue at an address. -/
def goTo (m : Machine) (target : UInt16) : Machine := { m with pc := target }

/-- Continue with the following instruction. -/
def advance (m : Machine) : Machine := m.goTo (m.pc + 2)

/-- Continue with the following instruction or the one after it. -/
def skipIf (m : Machine) (skip : Bool) : Machine :=
  if skip then m.goTo (m.pc + 4) else m.advance

/-- The bytes of the sprite at `I`. -/
def sprite (m : Machine) (rows : Nat) : List UInt8 :=
  (List.range rows).map fun row => m.byteAt (m.i.toNat + row)

end Machine

end Chip8
