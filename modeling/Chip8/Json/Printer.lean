import Chip8.Text.Hex
import Chip8.Text.Record

/-!
# Compact text

Objects of plain fields and arrays of them, written without any blank. In
quoted text the quote, the backslash and the control characters are escaped.
-/

namespace Chip8.Json

/-- The plain values that fields hold. -/
inductive Scalar where
  /-- The absent value. -/
  | null
  /-- A truth value. -/
  | bool (b : Bool)
  /-- A natural number. -/
  | natural (n : Nat)
  /-- Text. -/
  | text (s : String)
  deriving DecidableEq, Repr

/-- The fields of an object, in order. -/
abbrev Members := List (String × Scalar)

/-- How one character is written between quotes. -/
def escapedChar (c : Char) : List Char :=
  match c with
  | '\x22' => ['\\', '\x22']
  | '\\' => ['\\', '\\']
  | '\x08' => ['\\', 'b']
  | '\x0c' => ['\\', 'f']
  | '\n' => ['\\', 'n']
  | '\r' => ['\\', 'r']
  | '\t' => ['\\', 't']
  | c => if c.toNat < 0x20 then ['\\', 'u'] ++ Text.hexDigits 4 c.toNat else [c]

/-- Text in quotes. -/
def quotedChars (s : String) : List Char :=
  ['\x22'] ++ s.toList.flatMap escapedChar ++ ['\x22']

namespace Scalar

/-- The compact form of a plain value. -/
def chars : Scalar → List Char
  | .null => ['n', 'u', 'l', 'l']
  | .bool b => (Text.truth b).toList
  | .natural n => Nat.toDigits 10 n
  | .text s => quotedChars s

/-- The text that shows a plain value to a person. -/
def shown (s : Scalar) : String := String.ofList s.chars

end Scalar

/-- The compact form of one member. -/
def memberChars (member : String × Scalar) : List Char :=
  quotedChars member.1 ++ [':'] ++ member.2.chars

/-- The compact form of an object. -/
def objectChars (members : Members) : List Char :=
  ['\x7b'] ++ [','].intercalate (members.map memberChars) ++ ['\x7d']

/-- The compact form of an array of objects. -/
def arrayChars (objects : List Members) : List Char :=
  ['['] ++ [','].intercalate (objects.map objectChars) ++ [']']

end Chip8.Json
