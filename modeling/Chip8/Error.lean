import Chip8.Config.Problem
import Chip8.Memory
import Chip8.Text.Hex

/-!
# Errors of the engine

Everything that a host can be refused, by cause. Unassigned words are no error,
and neither is a program counter past the end of memory, which is how a run
ends.
-/

namespace Chip8

/-- Why the engine refuses something. -/
inductive EngineError where
  /-- A call at `pc` while all slots of the call stack are live. -/
  | stackOverflow (pc : UInt16) (depth : Nat)
  /-- A return at `pc` while no slot of the call stack is live. -/
  | stackUnderflow (pc : UInt16)
  /-- A register number that names no register. -/
  | registerOutOfRange (index : Nat)
  /-- A program that does not fit into memory at its origin. -/
  | programTooLarge (origin : UInt16) (length : Nat)
  /-- A text that is no config. -/
  | invalidConfig (problem : Config.Problem)
  deriving DecidableEq, Repr

namespace EngineError

/-- The message of an error. -/
def message : EngineError → String
  | .stackOverflow pc depth =>
    "stack overflow: call at " ++ Text.address pc ++ " with " ++ toString depth ++
      " return addresses already pushed"
  | .stackUnderflow pc =>
    "stack underflow: return at " ++ Text.address pc ++ " with an empty call stack"
  | .registerOutOfRange index =>
    "data register index " ++ toString index ++ " out of range (expected 0..16)"
  | .programTooLarge origin length =>
    "program of " ++ toString length ++ " bytes at origin " ++ Text.address origin ++
      " does not fit in " ++ toString memorySize ++ " bytes of memory"
  | .invalidConfig problem => "invalid engine config: " ++ problem.message

end EngineError

end Chip8
