/-!
# Number literals

A literal is an optional minus sign, digits without a superfluous leading
zero, and optionally a fraction and an exponent. A literal without fraction
and exponent is an integer if it fits into 64 bits. Every other literal is a
real number, unless reading it into a double overflows.

The significand is read into 64 bits: digits that no longer fit are dropped,
before the point with a larger power of ten in return. The double is then the
product of two rounded factors, the significand and the power of ten.
-/

namespace Chip8.Json

/-- What a number literal stands for. -/
inductive Number where
  /-- A natural number below `2^64`. -/
  | natural (n : Nat)
  /-- The integer `-n`, with `n` positive and at most `2^63`. -/
  | negative (n : Nat)
  /-- Any other number that has a finite double. -/
  | real
  /-- A number too large for a double. -/
  | tooLarge
  deriving DecidableEq, Repr

/-- The parts of a number literal. -/
structure Literal where
  /-- Whether a minus sign stands in front. -/
  minus : Bool
  /-- The digits before the point. -/
  whole : List Char
  /-- The digits behind the point; empty without a fraction. -/
  fraction : List Char
  /-- Whether the exponent is negative, and its digits. -/
  exponent : Option (Bool × List Char)
  deriving DecidableEq, Repr

namespace Literal

/-- Read a minus sign if there is one. -/
def scanMinus : List Char → Bool × List Char
  | '-' :: rest => (true, rest)
  | text => (false, text)

/-- Read the digits before the point. A zero stands alone. -/
def scanWhole (text : List Char) : Option (List Char × List Char) :=
  let digits := text.takeWhile Char.isDigit
  if digits = [] ∨ (digits.head? = some '0' ∧ 1 < digits.length) then none
  else some (digits, text.dropWhile Char.isDigit)

/-- Read at least one digit. -/
def scanDigits (text : List Char) : Option (List Char × List Char) :=
  let digits := text.takeWhile Char.isDigit
  if digits = [] then none else some (digits, text.dropWhile Char.isDigit)

/-- Read the fraction if a point follows. -/
def scanFraction : List Char → Option (List Char × List Char)
  | '.' :: rest => scanDigits rest
  | text => some ([], text)

/-- Read the sign of an exponent, which may be left out. -/
def scanSign : List Char → Bool × List Char
  | '-' :: rest => (true, rest)
  | '+' :: rest => (false, rest)
  | text => (false, text)

/-- Read the exponent if its mark follows. -/
def scanExponent : List Char → Option (Option (Bool × List Char) × List Char)
  | [] => some (none, [])
  | mark :: rest =>
    if mark = 'e' ∨ mark = 'E' then
      let sign := scanSign rest
      match scanDigits sign.2 with
      | some (digits, rest) => some (some (sign.1, digits), rest)
      | none => none
    else some (none, mark :: rest)

/-- Read the longest literal at the front of a text. -/
def scan (text : List Char) : Option (Literal × List Char) :=
  let minus := scanMinus text
  match scanWhole minus.2 with
  | none => none
  | some (whole, rest) =>
    match scanFraction rest with
    | none => none
    | some (fraction, rest) =>
      match scanExponent rest with
      | none => none
      | some (exponent, rest) => some (⟨minus.1, whole, fraction, exponent⟩, rest)

/-- Append digits to a significand while it stays below `2^64`; the digits
from the first that does not fit are left over. -/
def absorb : Nat → List Char → Nat × List Char
  | s, [] => (s, [])
  | s, d :: digits =>
    let grown := 10 * s + (d.toNat - '0'.toNat)
    if grown < Nat.pow 2 64 then absorb grown digits else (s, d :: digits)

/-- The nearest number with at most 53 binary digits; a tie goes to the even
neighbour. -/
def round53 (n : Nat) : Nat :=
  if n < Nat.pow 2 53 then n
  else
    let shift := n.log2 - 52
    let unit := Nat.pow 2 shift
    let kept := n / unit
    let lost := n % unit
    let up := unit < 2 * lost ∨ (unit = 2 * lost ∧ kept % 2 = 1)
    (if up then kept + 1 else kept) * unit

/-- Whether a significand times a power of ten overflows the doubles: the
power has no double, or the product of the rounded factors rounds to
`2^1024`. -/
def overflows (significand : Nat) (power : Int) : Bool :=
  decide (significand ≠ 0 ∧ 0 ≤ power ∧
    (308 < power ∨ Nat.pow 2 1024 - Nat.pow 2 970 ≤
      round53 significand * round53 (Nat.pow 10 power.toNat)))

/-- The largest exponent that is read digit by digit. -/
def exponentLimit : Nat := Nat.pow 2 31 - 1

/-- A number that is not an integer literal. -/
def realOrTooLarge (tooLarge : Bool) : Number := if tooLarge then .tooLarge else .real

/-- What the literal stands for. -/
def number (l : Literal) : Number :=
  let whole := absorb 0 l.whole
  let fraction := absorb whole.1 l.fraction
  let power : Int := whole.2.length - (l.fraction.length - fraction.2.length : Nat)
  match l.exponent with
  | some (negative, digits) =>
    let size := Nat.ofDigitChars 10 digits 0
    if exponentLimit < size then realOrTooLarge (!negative && decide (fraction.1 ≠ 0))
    else realOrTooLarge (overflows fraction.1 (if negative then power - size else power + size))
  | none =>
    if l.fraction = [] ∧ whole.2 = [] then
      if l.minus then
        if whole.1 = 0 ∨ Nat.pow 2 63 < whole.1 then .real else .negative whole.1
      else .natural whole.1
    else realOrTooLarge (overflows fraction.1 power)

/-- Reading a sign takes at most one character. -/
theorem length_scanMinus (text : List Char) : (scanMinus text).2.length ≤ text.length := by
  unfold scanMinus
  split
  · simp only [List.length_cons]
    omega
  · exact Nat.le_refl _

/-- Dropping digits shortens a text that begins with one. -/
theorem length_dropWhile_lt {text : List Char} (h : text.takeWhile Char.isDigit ≠ []) :
    (text.dropWhile Char.isDigit).length < text.length := by
  have hp := List.length_pos_iff.mpr h
  have hs := congrArg List.length
    (List.takeWhile_append_dropWhile (p := Char.isDigit) (l := text))
  rw [List.length_append] at hs
  omega

/-- Reading the whole part takes at least one character. -/
theorem length_scanWhole {text digits rest : List Char}
    (h : scanWhole text = some (digits, rest)) : rest.length < text.length := by
  unfold scanWhole at h
  dsimp only at h
  split at h
  · cases h
  · rename_i hd
    simp only [Option.some.injEq, Prod.mk.injEq] at h
    rw [←h.2]
    have hne : text.takeWhile Char.isDigit ≠ [] := fun h0 => hd (Or.inl h0)
    exact length_dropWhile_lt hne

/-- Reading digits takes at least one character. -/
theorem length_scanDigits {text digits rest : List Char}
    (h : scanDigits text = some (digits, rest)) : rest.length < text.length := by
  unfold scanDigits at h
  dsimp only at h
  split at h
  · cases h
  · rename_i hne
    simp only [Option.some.injEq, Prod.mk.injEq] at h
    rw [←h.2]
    exact length_dropWhile_lt hne

/-- Reading a fraction leaves no more than there was. -/
theorem length_scanFraction {text digits rest : List Char}
    (h : scanFraction text = some (digits, rest)) : rest.length ≤ text.length := by
  unfold scanFraction at h
  split at h
  · have hl := length_scanDigits h
    simp only [List.length_cons]
    omega
  · cases h
    exact Nat.le_refl _

/-- Reading the sign of an exponent leaves no more than there was. -/
theorem length_scanSign (text : List Char) : (scanSign text).2.length ≤ text.length := by
  unfold scanSign
  split <;> simp only [List.length_cons] <;> omega

/-- Reading an exponent leaves no more than there was. -/
theorem length_scanExponent {text rest : List Char} {exponent : Option (Bool × List Char)}
    (h : scanExponent text = some (exponent, rest)) : rest.length ≤ text.length := by
  cases text with
  | nil =>
    cases h
    exact Nat.le_refl _
  | cons mark tail =>
    unfold scanExponent at h
    dsimp only at h
    split at h
    · have hs := length_scanSign tail
      split at h
      · rename_i hd
        cases h
        have hl := length_scanDigits hd
        simp only [List.length_cons]
        omega
      · cases h
    · cases h
      exact Nat.le_refl _

/-- Reading a literal takes at least one character. -/
theorem length_scan {text rest : List Char} {l : Literal}
    (h : scan text = some (l, rest)) : rest.length < text.length := by
  have hm := length_scanMinus text
  unfold scan at h
  dsimp only at h
  split at h
  · cases h
  · rename_i hw
    have hwl := length_scanWhole hw
    split at h
    · cases h
    · rename_i hf
      have hfl := length_scanFraction hf
      split at h
      · cases h
      · rename_i he
        have hel := length_scanExponent he
        cases h
        omega

end Literal

end Chip8.Json
