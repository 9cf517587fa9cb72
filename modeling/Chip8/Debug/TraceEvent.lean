import Chip8.Core
import Chip8.Json.Printer

/-!
# Trace events

What a trace keeps of an executed instruction: that it was executed, and
whether it called, returned or drew. The second is told from the word, the
operands as they were, and the machine as it is right after the instruction.
-/

namespace Chip8.Debug

/-- What a trace keeps of an instruction. -/
inductive TraceEvent where
  /-- An instruction was executed. -/
  | instruction (pc : UInt16) (word : Word)
  /-- A subroutine was called. -/
  | call (source target : UInt16)
  /-- A subroutine returned. -/
  | ret (source target : UInt16)
  /-- A sprite was drawn. -/
  | draw (x y rows : UInt8) (collision : Bool)
  deriving DecidableEq, Repr

/-- Which events a trace keeps. -/
structure TraceFilter where
  /-- Whether every instruction is kept. -/
  instructions : Bool
  /-- Whether calls and returns are kept. -/
  controlFlow : Bool
  /-- Whether draws are kept. -/
  draws : Bool
  deriving DecidableEq, Repr

namespace TraceEvent

/-- The call, return or draw that an instruction was, if it was one. The
machine is the one right after the instruction. -/
def special? (retired : Retired) (m : Machine) : Option TraceEvent :=
  match Instruction.decode retired.word with
  | .ret => some (.ret retired.address m.pc)
  | .call _ => some (.call retired.address m.pc)
  | .draw _ _ rows =>
    some (.draw retired.vx retired.vy (UInt8.ofNat rows.val) (m.v[flagRegister] == 1))
  | _ => none

/-- The events of an instruction, in order. -/
def ofRetired (retired : Retired) (m : Machine) : List TraceEvent :=
  .instruction retired.address retired.word :: (special? retired m).toList

/-- The name of the kind of an event. -/
def kind : TraceEvent → String
  | .instruction _ _ => "Instruction"
  | .call _ _ => "Call"
  | .ret _ _ => "Return"
  | .draw _ _ _ _ => "Draw"

/-- What an event tells beside its kind. -/
def fields : TraceEvent → Json.Members
  | .instruction pc word => [("pc", .natural pc.toNat), ("word", .natural word.toNat)]
  | .call source target => [("from", .natural source.toNat), ("to", .natural target.toNat)]
  | .ret source target => [("from", .natural source.toNat), ("to", .natural target.toNat)]
  | .draw x y rows collision =>
    [("x", .natural x.toNat), ("y", .natural y.toNat), ("rows", .natural rows.toNat),
     ("collision", .bool collision)]

/-- The text that shows an event to a person. -/
def shown (e : TraceEvent) : String :=
  Text.record e.kind (e.fields.map fun (name, value) => (name, value.shown))

end TraceEvent

namespace TraceFilter

/-- Keep calls, returns and draws. -/
def standard : TraceFilter := ⟨false, true, true⟩

/-- Whether a trace keeps an event. -/
def keeps (f : TraceFilter) : TraceEvent → Bool
  | .instruction _ _ => f.instructions
  | .call _ _ => f.controlFlow
  | .ret _ _ => f.controlFlow
  | .draw _ _ _ _ => f.draws

/-- The members of a filter as they are written. -/
def members (f : TraceFilter) : Json.Members :=
  [("instructions", .bool f.instructions), ("control_flow", .bool f.controlFlow),
   ("draws", .bool f.draws)]

/-- The text that shows a filter to a person. -/
def shown (f : TraceFilter) : String :=
  Text.record "TraceFilter" (f.members.map fun (name, value) => (name, value.shown))

end TraceFilter

end Chip8.Debug
