import Chip8.Text.Quoted
import Chip8.Text.Record

/-!
# Problems of a config text

Why a text is no config. Only the first problem of a text is reported.
-/

namespace Chip8.Config

/-- The members a config text may have. -/
inductive Field where
  /-- The seed of the random source. -/
  | rngSeed
  /-- The register that shifts read. -/
  | shiftSource
  deriving DecidableEq, Repr

/-- What was found in place of something else. -/
inductive Found where
  /-- A truth value. -/
  | boolean (b : Bool)
  /-- An integer. -/
  | integer (i : Int)
  /-- A number that is not an integer. -/
  | floatingPoint
  /-- Text. -/
  | text (s : String)
  /-- The absent value. -/
  | null
  /-- An array, of which only the opening bracket was looked at. -/
  | sequence
  /-- An object, of which only the opening brace was looked at. -/
  | map
  deriving DecidableEq, Repr

/-- What a place in a config text may hold. -/
inductive Expected where
  /-- A whole config. -/
  | config
  /-- A seed. -/
  | seed
  /-- The absent value. -/
  | nothing
  deriving DecidableEq, Repr

/-- Why a text is no config. -/
inductive Problem where
  /-- A key that no member has. -/
  | unknownField (key : String)
  /-- A second member with the same key. -/
  | duplicateField (field : Field)
  /-- A name that no register has. -/
  | unknownRegister (name : String)
  /-- A value of the wrong kind. -/
  | wrongType (found : Found) (expected : Expected)
  /-- A value of the right kind outside its range. -/
  | wrongValue (found : Found) (expected : Expected)
  /-- Text that is not well formed, or has something in a place of which nothing more is
  said: a register that is neither text nor in braces, or a key that is no text. -/
  | malformed
  deriving DecidableEq, Repr

namespace Field

/-- The key of a member. -/
def key : Field → String
  | .rngSeed => "rng_seed"
  | .shiftSource => "shift_source"

/-- The member that a key names. -/
def ofKey? (s : String) : Option Field :=
  if s = "rng_seed" then some .rngSeed
  else if s = "shift_source" then some .shiftSource
  else none

/-- Every member is named by its key. -/
@[simp]
theorem ofKey?_key (f : Field) : ofKey? f.key = some f := by
  cases f <;> rfl

end Field

namespace Found

/-- How a message speaks of what was found. -/
def message : Found → String
  | .boolean b => "boolean `" ++ Text.truth b ++ "`"
  | .integer i => "integer `" ++ toString i ++ "`"
  | .floatingPoint => "floating point"
  | .text s => "string " ++ Text.quoted s
  | .null => "null"
  | .sequence => "sequence"
  | .map => "map"

end Found

namespace Expected

/-- How a message speaks of what a place may hold. -/
def message : Expected → String
  | .config => "struct EngineConfig"
  | .seed => "u64"
  | .nothing => "unit"

end Expected

namespace Problem

/-- The message of a problem. -/
def message : Problem → String
  | .unknownField key =>
    "unknown field `" ++ key ++ "`, expected `rng_seed` or `shift_source`"
  | .duplicateField field => "duplicate field `" ++ field.key ++ "`"
  | .unknownRegister name => "unknown variant `" ++ name ++ "`, expected `vx` or `vy`"
  | .wrongType found expected =>
    "invalid type: " ++ found.message ++ ", expected " ++ expected.message
  | .wrongValue found expected =>
    "invalid value: " ++ found.message ++ ", expected " ++ expected.message
  | .malformed => "syntax"

end Problem

end Chip8.Config
