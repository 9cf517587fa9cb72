import Chip8.Json.Printer

/-!
# Reasons for a pause

Why a debugger suspends a run.
-/

namespace Chip8.Debug

/-- Why a debugger suspends a run. -/
inductive PauseReason where
  /-- A pause was asked for. -/
  | manual
  /-- The program counter has come to a breakpoint. -/
  | breakpoint (pc : UInt16)
  /-- The requested number of instructions has been executed. -/
  | stepsDone
  deriving DecidableEq, Repr

namespace PauseReason

/-- The name of a reason. -/
def kind : PauseReason → String
  | .manual => "Manual"
  | .breakpoint _ => "Breakpoint"
  | .stepsDone => "StepsDone"

/-- What a reason tells beside its name. -/
def fields : PauseReason → Json.Members
  | .breakpoint pc => [("pc", .natural pc.toNat)]
  | _ => []

/-- The text that shows a reason to a person. -/
def shown (r : PauseReason) : String :=
  Text.record r.kind (r.fields.map fun (name, value) => (name, value.shown))

end PauseReason

end Chip8.Debug
