import Chip8.Config
import Chip8.Error
import Chip8.Json.Token

/-!
# Reading a config

A config text is read in one pass from left to right by a machine that takes
one token at a time and stops at the first problem. A key is judged as soon as
it is complete, before anything behind it is looked at.

A config is an object with at most two members, or an array of the seed and the
register in this order; what is left out takes its standard value. A register
is given by its name, or by an object with the name as key of a null value.
-/

namespace Chip8.Config

/-- What a config text has said so far. -/
structure Draft where
  /-- The seed, if it has been given. -/
  seed : Option (Option UInt64)
  /-- The register, if it has been given. -/
  shift : Option ShiftSource
  deriving DecidableEq, Repr

namespace Draft

/-- The draft of a text that has said nothing yet. -/
def empty : Draft := ⟨none, none⟩

/-- Whether a member has been given. -/
def has (d : Draft) : Field → Bool
  | .rngSeed => d.seed.isSome
  | .shiftSource => d.shift.isSome

/-- The config of a complete text. -/
def config (d : Draft) : Config :=
  ⟨d.seed.getD standard.rngSeed, d.shift.getD standard.shiftSource⟩

end Draft

/-- The bracket a value of a config stands in. -/
inductive Place where
  /-- The braces of an object. -/
  | member
  /-- The brackets of an array. -/
  | item
  deriving DecidableEq, Repr

/-- What a reader waits for. -/
inductive Reader where
  /-- The opening bracket. -/
  | start
  /-- The first key, or the end of the object. -/
  | firstKey
  /-- The key behind a comma. -/
  | key (d : Draft)
  /-- The mark behind a key. -/
  | colon (d : Draft) (field : Field)
  /-- The first item, or the end of the array. -/
  | firstItem
  /-- A value. -/
  | value (place : Place) (d : Draft) (field : Field)
  /-- The name of a register in braces. -/
  | register (place : Place) (d : Draft)
  /-- The mark behind that name. -/
  | registerColon (place : Place) (d : Draft) (source : ShiftSource)
  /-- The null behind that mark. -/
  | registerNull (place : Place) (d : Draft) (source : ShiftSource)
  /-- The closing brace behind that null. -/
  | registerEnd (place : Place) (d : Draft) (source : ShiftSource)
  /-- A comma, or the closing bracket. -/
  | more (place : Place) (d : Draft)
  /-- Nothing, because the config is complete. -/
  | done (c : Config)
  deriving DecidableEq, Repr

namespace Reader

/-- What a token begins, if it begins a value that can be held. -/
def found? : Json.Token → Option Found
  | .null => some .null
  | .bool b => some (.boolean b)
  | .number (.natural n) => some (.integer n)
  | .number (.negative n) => some (.integer (-(n : Int)))
  | .number .real => some .floatingPoint
  | .text (some s) => some (.text s)
  | .openBracket => some .sequence
  | .openBrace => some .map
  | _ => none

/-- The problem of a token in a place that holds something else. -/
def mismatch (expected : Expected) (t : Json.Token) : Problem :=
  match found? t with
  | some found => .wrongType found expected
  | none => .malformed

/-- The register of a name. -/
def registerNamed (name : String) : Except Problem ShiftSource :=
  match ShiftSource.ofKey? name with
  | some source => .ok source
  | none => .error (.unknownRegister name)

/-- The seed that a token gives. -/
def seedOf : Json.Token → Except Problem (Option UInt64)
  | .null => .ok none
  | .number (.natural n) => .ok (some (UInt64.ofNat n))
  | .number (.negative n) => .error (.wrongValue (.integer (-(n : Int))) .seed)
  | t => .error (mismatch .seed t)

/-- Begin the value of a member with a token. -/
def beginValue (place : Place) (d : Draft) : Field → Json.Token → Except Problem Reader
  | .rngSeed, t =>
    match seedOf t with
    | .ok seed => .ok (.more place { d with seed := some seed })
    | .error problem => .error problem
  | .shiftSource, .text (some name) =>
    match registerNamed name with
    | .ok source => .ok (.more place { d with shift := some source })
    | .error problem => .error problem
  | .shiftSource, .openBrace => .ok (.register place d)
  | .shiftSource, _ => .error .malformed

/-- Judge a key. -/
def takeKey (d : Draft) (name : String) : Except Problem Reader :=
  match Field.ofKey? name with
  | some field => if d.has field then .error (.duplicateField field) else .ok (.colon d field)
  | none => .error (.unknownField name)

/-- Take one token. A key that is no text makes the text malformed, in the braces of a
register as in those of a config, and what was found in its place is not reported. -/
def step : Reader → Json.Token → Except Problem Reader
  | .start, .openBrace => .ok .firstKey
  | .start, .openBracket => .ok .firstItem
  | .start, t => .error (mismatch .config t)
  | .firstKey, .closeBrace => .ok (.done Draft.empty.config)
  | .firstKey, .text (some name) => takeKey .empty name
  | .key d, .text (some name) => takeKey d name
  | .colon d field, .colon => .ok (.value .member d field)
  | .firstItem, .closeBracket => .ok (.done Draft.empty.config)
  | .firstItem, t => beginValue .item .empty .rngSeed t
  | .value place d field, t => beginValue place d field t
  | .register place d, .text (some name) =>
    match registerNamed name with
    | .ok source => .ok (.registerColon place d source)
    | .error problem => .error problem
  | .registerColon place d source, .colon => .ok (.registerNull place d source)
  | .registerNull place d source, .null => .ok (.registerEnd place d source)
  | .registerNull _ _ _, t => .error (mismatch .nothing t)
  | .registerEnd place d source, .closeBrace =>
    .ok (.more place { d with shift := some source })
  | .more .member d, .comma => .ok (.key d)
  | .more .member d, .closeBrace => .ok (.done d.config)
  | .more .item d, .comma =>
    if d.shift.isSome then .error .malformed else .ok (.value .item d .shiftSource)
  | .more .item d, .closeBracket => .ok (.done d.config)
  | _, _ => .error .malformed

/-- The config of a reader that has taken all tokens. -/
def result : Reader → Except Problem Config
  | .done c => .ok c
  | _ => .error .malformed

end Reader

/-- The config that a sequence of tokens writes, or its first problem. -/
def ofTokens (tokens : List Json.Token) : Except Problem Config :=
  match tokens.foldlM Reader.step .start with
  | .ok reader => reader.result
  | .error problem => .error problem

/-- The config that a text writes, or its first problem. -/
def ofJson (text : String) : Except Problem Config := ofTokens (Json.Token.ofString text)

/-- What the engine answers to a config text: the config, or a refusal with the first
problem. -/
def read (text : String) : Except EngineError Config :=
  match ofJson text with
  | .ok c => .ok c
  | .error problem => .error (.invalidConfig problem)

end Chip8.Config
