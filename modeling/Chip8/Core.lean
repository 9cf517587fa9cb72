import Chip8.Config
import Chip8.Machine
import Chip8.Random.Source
import Chip8.Sprite

/-!
# Executing instructions

One step fetches the word at the program counter, decodes it and executes it.
A step either retires the instruction or fails; a failed step has fetched the
word and changed nothing else. An arithmetic instruction writes its result
first and the flag last, so the flag wins when both go to the same register.
-/

namespace Chip8

namespace Arithmetic

/-- The register a shift reads. -/
def shiftOperand (source : ShiftSource) (vx vy : UInt8) : UInt8 :=
  match source with
  | .vx => vx
  | .vy => vy

/-- The result of an operation and the flag it leaves, if it leaves one. -/
def apply (operation : Arithmetic) (source : ShiftSource) (vx vy : UInt8) :
    UInt8 × Option Bool :=
  match operation with
  | .copy => (vy, none)
  | .or => (vx ||| vy, none)
  | .and => (vx &&& vy, none)
  | .xor => (vx ^^^ vy, none)
  | .add => (vx + vy, some (decide (256 ≤ vx.toNat + vy.toNat)))
  | .subtract => (vx - vy, some (decide (vy ≤ vx)))
  | .subtractFrom => (vy - vx, some (decide (vx ≤ vy)))
  | .shiftRight =>
    let operand := shiftOperand source vx vy
    (operand >>> 1, some (decide (operand.toNat % 2 = 1)))
  | .shiftLeft =>
    let operand := shiftOperand source vx vy
    (operand <<< 1, some (decide (128 ≤ operand.toNat)))

end Arithmetic

/-- An instruction that has been executed, with its operands as they were. -/
structure Retired where
  /-- Where the instruction was fetched. -/
  address : UInt16
  /-- The word of the instruction. -/
  word : Word
  /-- The register `VX` before the instruction. -/
  vx : UInt8
  /-- The register `VY` before the instruction. -/
  vy : UInt8
  deriving DecidableEq, Repr

namespace Machine

/-- Write a result and then, if there is one, the flag. -/
def setResult (m : Machine) (x : Fin 16) (result : UInt8 × Option Bool) : Machine :=
  match result.2 with
  | some flag => (m.setV x result.1).setFlag flag
  | none => m.setV x result.1

/-- Draw the sprite at `I` with its corner at `VX` and `VY`. The flag tells
whether a lit cell was turned off. -/
def drawSprite (m : Machine) (x y : Fin 16) (rows : Nat) : Machine :=
  let drawn := m.display.flipAll (Sprite.cells m.v[x].toNat m.v[y].toNat (m.sprite rows))
  { m with display := drawn.2 }.setFlag drawn.1

/-- Execute an instruction at the program counter. -/
def execute (source : ShiftSource) (random : Random.Source) (m : Machine) :
    Instruction → Except EngineError Machine
  | .clear => .ok { m with display := .blank }.advance
  | .ret =>
    match m.calls.pop? with
    | some (address, calls) => .ok ({ m with calls := calls }.goTo (address + 2))
    | none => .error (.stackUnderflow m.pc)
  | .jump target => .ok (m.goTo target)
  | .call target =>
    match m.calls.push? m.pc with
    | some calls => .ok ({ m with calls := calls }.goTo target)
    | none => .error (.stackOverflow m.pc m.calls.depth)
  | .skipIs x operand => .ok (m.skipIf (m.v[x] == operand))
  | .skipIsNot x operand => .ok (m.skipIf (m.v[x] != operand))
  | .skipSame x y => .ok (m.skipIf (m.v[x] == m.v[y]))
  | .skipDifferent x y => .ok (m.skipIf (m.v[x] != m.v[y]))
  | .load x operand => .ok (m.setV x operand).advance
  | .increase x operand => .ok (m.setV x (m.v[x] + operand)).advance
  | .arithmetic operation x y =>
    .ok (m.setResult x (operation.apply source m.v[x] m.v[y])).advance
  | .loadIndex target => .ok { m with i := target }.advance
  | .jumpOffset target => .ok (m.goTo (target + m.v[(0 : Fin 16)].toUInt16))
  | .random x mask => .ok (m.setV x (random.byte &&& mask)).advance
  | .draw x y rows => .ok (m.drawSprite x y rows.val).advance
  | .idle => .ok m.advance

end Machine

/-- A machine with its random source. -/
structure Core where
  /-- The state that programs act on. -/
  machine : Machine
  /-- The source of random bytes. -/
  random : Random.Source
  deriving DecidableEq

namespace Core

/-- The record that the instruction at the program counter will leave. -/
def upcoming (c : Core) : Retired :=
  let word := c.machine.fetch
  ⟨c.machine.pc, word, c.machine.v[word.x], c.machine.v[word.y]⟩

/-- Execute the instruction at the program counter. -/
def step (source : ShiftSource) (c : Core) : Core × Except EngineError Retired :=
  let retired := c.upcoming
  let machine := c.machine.fetched
  let instruction := Instruction.decode retired.word
  match machine.execute source c.random instruction with
  | .ok machine =>
    (⟨machine, if instruction.takesByte then c.random.next else c.random⟩, .ok retired)
  | .error error => (⟨machine, c.random⟩, .error error)

end Core

end Chip8
