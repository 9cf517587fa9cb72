import Chip8.Json.Token

/-!
# Values

A value is read by a machine with a stack of unfinished brackets that takes
one token at a time. Reading checks the grammar only. Whether every text and
number can be held, and how deeply the brackets nest, is asked of the tokens
apart, because only a value that is held as a whole depends on it.
-/

namespace Chip8.Json

/-- A value as it is written. -/
inductive Value where
  /-- The absent value. -/
  | null
  /-- A truth value. -/
  | bool (b : Bool)
  /-- A number. -/
  | number (n : Number)
  /-- Quoted text; `none` if one of its escapes is half a pair. -/
  | text (content : Option String)
  /-- The items of an array, in order. -/
  | array (items : List Value)
  /-- The members of an object, in order and with repeated keys. -/
  | object (members : List (Option String × Value))
  deriving Repr

namespace Value

/-- An unfinished bracket with what it holds so far, in order. -/
inductive Frame where
  /-- An array that waits for its next item. -/
  | array (items : List Value)
  /-- An object whose last key waits for its value. -/
  | object (members : List (Option String × Value)) (key : Option String)

/-- What a reader waits for, inside the brackets that are still open. -/
inductive Reader where
  /-- A value. -/
  | value (outer : List Frame)
  /-- The first item of an array, or its end. -/
  | firstItem (outer : List Frame)
  /-- The first key of an object, or its end. -/
  | firstKey (outer : List Frame)
  /-- The key behind a comma. -/
  | key (members : List (Option String × Value)) (outer : List Frame)
  /-- The mark behind a key. -/
  | colon (members : List (Option String × Value)) (key : Option String)
    (outer : List Frame)
  /-- A comma, or the end of an array. -/
  | moreItems (items : List Value) (outer : List Frame)
  /-- A comma, or the end of an object. -/
  | moreMembers (members : List (Option String × Value)) (outer : List Frame)
  /-- Nothing, because the value is complete. -/
  | done (v : Value)

namespace Reader

/-- Put a finished value where it belongs. -/
def finish (v : Value) : List Frame → Reader
  | [] => .done v
  | .array items :: outer => .moreItems (items ++ [v]) outer
  | .object members name :: outer => .moreMembers (members ++ [(name, v)]) outer

/-- Begin a value with a token. -/
def begin (outer : List Frame) : Token → Option Reader
  | .null => some (finish .null outer)
  | .bool b => some (finish (.bool b) outer)
  | .number n => some (finish (.number n) outer)
  | .text content => some (finish (.text content) outer)
  | .openBracket => some (.firstItem outer)
  | .openBrace => some (.firstKey outer)
  | _ => none

/-- Take one token. -/
def step : Reader → Token → Option Reader
  | .value outer, t => begin outer t
  | .firstItem outer, .closeBracket => some (finish (.array []) outer)
  | .firstItem outer, t => begin (.array [] :: outer) t
  | .firstKey outer, .closeBrace => some (finish (.object []) outer)
  | .firstKey outer, .text name => some (.colon [] name outer)
  | .key members outer, .text name => some (.colon members name outer)
  | .colon members name outer, .colon => some (.value (.object members name :: outer))
  | .moreItems items outer, .comma => some (.value (.array items :: outer))
  | .moreItems items outer, .closeBracket => some (finish (.array items) outer)
  | .moreMembers members outer, .comma => some (.key members outer)
  | .moreMembers members outer, .closeBrace => some (finish (.object members) outer)
  | _, _ => none

end Reader

/-- Read the one value that a sequence of tokens writes. -/
def ofTokens (tokens : List Token) : Option Value :=
  match tokens.foldlM Reader.step (.value []) with
  | some (.done v) => some v
  | _ => none

/-- Whether a token stands for something that can be held. -/
def isHeld : Token → Bool
  | .text none => false
  | .number .tooLarge => false
  | _ => true

/-- Whether no more than a number of brackets are ever open at once. -/
def nestsWithin : Nat → List Token → Bool
  | _, [] => true
  | room, .openBrace :: tokens => room ≠ 0 && nestsWithin (room - 1) tokens
  | room, .openBracket :: tokens => room ≠ 0 && nestsWithin (room - 1) tokens
  | room, .closeBrace :: tokens => nestsWithin (room + 1) tokens
  | room, .closeBracket :: tokens => nestsWithin (room + 1) tokens
  | room, _ :: tokens => nestsWithin room tokens

/-- How many brackets may be open at once in a value that is held. -/
def nestingLimit : Nat := 127

/-- Read a value all of which is held until its reader knows what it wants. -/
def heldOfTokens (tokens : List Token) : Option Value :=
  if tokens.all isHeld && nestsWithin nestingLimit tokens then ofTokens tokens else none

/-- The natural number below a bound that a value writes. -/
def natural? (bound : Nat) : Value → Option Nat
  | .number (.natural n) => if n < bound then some n else none
  | _ => none

/-- The byte that a value writes. -/
def byte? (v : Value) : Option UInt8 := (natural? (Nat.pow 2 8) v).map UInt8.ofNat

/-- The 16-bit word that a value writes. -/
def word? (v : Value) : Option UInt16 := (natural? (Nat.pow 2 16) v).map UInt16.ofNat

/-- The truth value that a value writes. -/
def bool? : Value → Option Bool
  | .bool b => some b
  | _ => none

/-- The values of the members with a key. -/
def withKey (key : String) (members : List (Option String × Value)) : List Value :=
  (members.filter fun member => member.1 = some key).map Prod.snd

/-- The value of the only member with a key. -/
def only? (key : String) (members : List (Option String × Value)) : Option Value :=
  match withKey key members with
  | [v] => some v
  | _ => none

end Value

end Chip8.Json
