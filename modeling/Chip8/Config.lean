import Chip8.Json.Printer

/-!
# Configuration

What a host may choose about an engine: a seed that makes its random source
reproducible, and which register the shift instructions read.
-/

namespace Chip8

/-- The register that the shift instructions read. -/
inductive ShiftSource where
  /-- Shift `VX` in place. -/
  | vx
  /-- Shift `VY` into `VX`. -/
  | vy
  deriving DecidableEq, Repr

/-- The choices of a host. -/
structure Config where
  /-- The seed of the random source; without one the source is arbitrary. -/
  rngSeed : Option UInt64
  /-- The register that the shift instructions read. -/
  shiftSource : ShiftSource
  deriving DecidableEq, Repr

namespace ShiftSource

/-- The name by which a config refers to the register. -/
def key : ShiftSource → String
  | .vx => "vx"
  | .vy => "vy"

/-- The register that a name refers to. -/
def ofKey? (s : String) : Option ShiftSource :=
  if s = "vx" then some .vx else if s = "vy" then some .vy else none

/-- The name of the register as it is shown. -/
def shown : ShiftSource → String
  | .vx => "Vx"
  | .vy => "Vy"

/-- Every register is referred to by its name. -/
@[simp]
theorem ofKey?_key (s : ShiftSource) : ofKey? s.key = some s := by
  cases s <;> rfl

end ShiftSource

namespace Config

/-- No seed, and shifts in place. -/
def standard : Config := ⟨none, .vx⟩

/-- The members of a config as they are written. -/
def members (c : Config) : Json.Members :=
  [("rng_seed", match c.rngSeed with
    | some seed => .natural seed.toNat
    | none => .null),
   ("shift_source", .text c.shiftSource.key)]

/-- The compact text of a config. -/
def toJson (c : Config) : String := String.ofList (Json.objectChars c.members)

/-- The text that shows a config to a person. -/
def shown (c : Config) : String :=
  Text.record "EngineConfig"
    [("rng_seed", match c.rngSeed with
      | some seed => "Some(" ++ toString seed.toNat ++ ")"
      | none => "None"),
     ("shift_source", c.shiftSource.shown)]

end Config

end Chip8
