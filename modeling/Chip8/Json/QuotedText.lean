/-!
# Quoted text

Text in quotes is first split into pieces, plain characters and four-digit
escapes, and the pieces are then put together: two escapes in a row may be the
halves of one character. Where quoted text is passed over unread, only the
first step is taken.
-/

namespace Chip8.Json

/-- A piece of quoted text. -/
inductive Piece where
  /-- A character that stands for itself or is named by a short escape. -/
  | char (c : Char)
  /-- An escape by a 16-bit number. -/
  | unit (value : Nat)
  deriving DecidableEq, Repr

namespace Piece

/-- The value of a hexadecimal digit of either case. -/
def hexValue? (c : Char) : Option Nat :=
  if '0' ≤ c ∧ c ≤ '9' then some (c.toNat - '0'.toNat)
  else if 'a' ≤ c ∧ c ≤ 'f' then some (c.toNat - 'a'.toNat + 10)
  else if 'A' ≤ c ∧ c ≤ 'F' then some (c.toNat - 'A'.toNat + 10)
  else none

/-- The number that four hexadecimal digits write. -/
def unitValue? (a b c d : Char) : Option Nat :=
  match hexValue? a, hexValue? b, hexValue? c, hexValue? d with
  | some a, some b, some c, some d => some (4096 * a + 256 * b + 16 * c + d)
  | _, _, _, _ => none

/-- The character that a one-letter escape names. -/
def shortEscape? (c : Char) : Option Char :=
  match c with
  | '\x22' => some '\x22'
  | '\\' => some '\\'
  | '/' => some '/'
  | 'b' => some '\x08'
  | 'f' => some '\x0c'
  | 'n' => some '\n'
  | 'r' => some '\r'
  | 't' => some '\t'
  | _ => none

/-- Put a piece in front of what was read behind it. -/
def consTo (p : Piece) : Option (List Piece × List Char) → Option (List Piece × List Char)
  | some (pieces, rest) => some (p :: pieces, rest)
  | none => none

/-- Read the pieces up to the closing quote. Control characters may not stand
in quoted text. -/
def scan : List Char → Option (List Piece × List Char)
  | [] => none
  | '\x22' :: rest => some ([], rest)
  | '\\' :: 'u' :: a :: b :: c :: d :: rest =>
    match unitValue? a b c d with
    | some value => consTo (.unit value) (scan rest)
    | none => none
  | '\\' :: e :: rest =>
    match shortEscape? e with
    | some c => consTo (.char c) (scan rest)
    | none => none
  | c :: rest => if c.toNat < 0x20 then none else consTo (.char c) (scan rest)

/-- The leading halves of a pair. -/
def isLeading (value : Nat) : Bool := decide (0xD800 ≤ value ∧ value < 0xDC00)

/-- The trailing halves of a pair. -/
def isTrailing (value : Nat) : Bool := decide (0xDC00 ≤ value ∧ value < 0xE000)

/-- The character of a pair. -/
def pairChar (leading trailing : Nat) : Char :=
  Char.ofNat (0x10000 + 0x400 * (leading - 0xD800) + (trailing - 0xDC00))

/-- Put the pieces together. There is no text if a half stands alone. -/
def assemble : List Piece → Option (List Char)
  | [] => some []
  | .char c :: pieces => (assemble pieces).map (c :: ·)
  | .unit value :: pieces =>
    if isLeading value then
      match pieces with
      | .unit trailing :: pieces =>
        if isTrailing trailing then (assemble pieces).map (pairChar value trailing :: ·)
        else none
      | _ => none
    else if isTrailing value then none
    else (assemble pieces).map (Char.ofNat value :: ·)

/-- What is read behind a piece ends where the whole reading ends. -/
theorem consTo_eq_some {p : Piece} {read : Option (List Piece × List Char)}
    {pieces : List Piece} {rest : List Char} (h : consTo p read = some (pieces, rest)) :
    ∃ tail, read = some (tail, rest) := by
  cases read with
  | none => cases h
  | some found =>
    rcases found with ⟨tail, r⟩
    cases h
    exact ⟨tail, rfl⟩

/-- Reading pieces takes at least the closing quote. -/
theorem length_scan {text rest : List Char} {pieces : List Piece}
    (h : scan text = some (pieces, rest)) : rest.length < text.length := by
  fun_induction scan text generalizing pieces with
  | case1 => cases h
  | case2 tail =>
    cases h
    simp only [List.length_cons]
    omega
  | case3 a b c d tail value _ ih =>
    obtain ⟨_, hs⟩ := consTo_eq_some h
    have hl := ih hs
    simp only [List.length_cons]
    omega
  | case4 => cases h
  | case5 e tail _ c _ ih =>
    obtain ⟨_, hs⟩ := consTo_eq_some h
    have hl := ih hs
    simp only [List.length_cons]
    omega
  | case6 => cases h
  | case7 => cases h
  | case8 c tail _ _ _ _ ih =>
    obtain ⟨_, hs⟩ := consTo_eq_some h
    have hl := ih hs
    simp only [List.length_cons]
    omega

end Piece

end Chip8.Json
