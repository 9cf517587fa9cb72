/-!
# Hexadecimal text

Lower-case hexadecimal digits, filled up with zeros to a least width.
-/

namespace Chip8.Text

/-- The hexadecimal digits of a number, at least `width` of them. -/
def hexDigits (width n : Nat) : List Char :=
  let digits := Nat.toDigits 16 n
  List.replicate (width - digits.length) '0' ++ digits

/-- The hexadecimal digits of a number as text. -/
def hex (width n : Nat) : String := String.ofList (hexDigits width n)

/-- An address is written with at least three digits. -/
def address (a : UInt16) : String := "0x" ++ hex 3 a.toNat

end Chip8.Text
