import Chip8.Json.Number
import Chip8.Json.QuotedText

/-!
# Tokens

A text is cut into punctuation, the three words of the format, quoted text and
numbers, with blanks between them. Cutting never fails: where the text stops
being made of tokens stands one `bad` token and nothing behind it, so a reader
that meets its first problem earlier never learns of a later one.
-/

namespace Chip8.Json

/-- The pieces a text is made of. -/
inductive Token where
  /-- An opening brace. -/
  | openBrace
  /-- A closing brace. -/
  | closeBrace
  /-- An opening bracket. -/
  | openBracket
  /-- A closing bracket. -/
  | closeBracket
  /-- The mark between a key and its value. -/
  | colon
  /-- The mark between members or items. -/
  | comma
  /-- The absent value. -/
  | null
  /-- A truth value. -/
  | bool (b : Bool)
  /-- A number. -/
  | number (n : Number)
  /-- Quoted text; `none` if one of its escapes is half a pair. -/
  | text (content : Option String)
  /-- The place where the text stops being made of tokens. -/
  | bad
  deriving DecidableEq, Repr

namespace Token

/-- The four characters that may stand between tokens. -/
def isBlank (c : Char) : Bool := c = ' ' || c = '\t' || c = '\n' || c = '\r'

/-- Read the rest of a word of the format. -/
def scanWord (word : List Char) (token : Token) (text : List Char) :
    Option (Token × List Char) :=
  if word.isPrefixOf text then some (token, text.drop word.length) else none

/-- Read quoted text behind its opening quote. -/
def scanText (text : List Char) : Option (Token × List Char) :=
  match Piece.scan text with
  | some (pieces, rest) => some (.text ((Piece.assemble pieces).map String.ofList), rest)
  | none => none

/-- Read a number. -/
def scanNumber (text : List Char) : Option (Token × List Char) :=
  match Literal.scan text with
  | some (l, rest) => some (.number l.number, rest)
  | none => none

/-- Read the token that begins with a given character. -/
def scan (c : Char) (rest : List Char) : Option (Token × List Char) :=
  match c with
  | '\x7b' => some (.openBrace, rest)
  | '\x7d' => some (.closeBrace, rest)
  | '[' => some (.openBracket, rest)
  | ']' => some (.closeBracket, rest)
  | ':' => some (.colon, rest)
  | ',' => some (.comma, rest)
  | 'n' => scanWord ['u', 'l', 'l'] .null rest
  | 't' => scanWord ['r', 'u', 'e'] (.bool true) rest
  | 'f' => scanWord ['a', 'l', 's', 'e'] (.bool false) rest
  | '\x22' => scanText rest
  | _ => scanNumber (c :: rest)

/-- Reading a word leaves no more than there was. -/
theorem length_scanWord {word text rest : List Char} {token found : Token}
    (h : scanWord word token text = some (found, rest)) : rest.length ≤ text.length := by
  unfold scanWord at h
  split at h
  · cases h
    simp only [List.length_drop]
    omega
  · cases h

/-- Reading a token takes at least its first character. -/
theorem length_scan {c : Char} {text rest : List Char} {t : Token}
    (h : scan c text = some (t, rest)) : rest.length ≤ text.length := by
  unfold scan at h
  split at h
  case h_7 => exact length_scanWord h
  case h_8 => exact length_scanWord h
  case h_9 => exact length_scanWord h
  case h_10 =>
    unfold scanText at h
    split at h
    · rename_i hs
      cases h
      exact Nat.le_of_lt (Piece.length_scan hs)
    · cases h
  case h_11 =>
    unfold scanNumber at h
    split at h
    · rename_i hs
      cases h
      have hl := Literal.length_scan hs
      simp only [List.length_cons] at hl
      omega
    · cases h
  all_goals
    cases h
    exact Nat.le_refl _

/-- Cut a text into tokens. -/
def ofChars : List Char → List Token
  | [] => []
  | c :: rest =>
    if isBlank c then ofChars rest
    else
      match _hs : scan c rest with
      | some (token, rest) => token :: ofChars rest
      | none => [.bad]
termination_by text => text.length
decreasing_by
  · simp only [List.length_cons]
    omega
  · have hl := length_scan _hs
    simp only [List.length_cons]
    omega

/-- Cut a text into tokens. -/
def ofString (s : String) : List Token := ofChars s.toList

/-- Blanks in front of a token mean nothing. -/
theorem ofChars_blank {c : Char} (h : isBlank c = true) (text : List Char) :
    ofChars (c :: text) = ofChars text := by
  rw [ofChars, if_pos h]

end Token

end Chip8.Json
