import Chip8.Json.Printer
import Chip8.Proofs.Decimal
import Chip8.Proofs.Quotation
import Mathlib.Data.List.Chain

/-!
# Spaced tokens

How tokens may be spelled and how much space may stand between them. A text that spells
tokens in order is cut into these tokens, whatever its spacing; only between two numbers
there must be some. A text that is cut into tokens all of which say something spells
them.
-/

namespace Chip8.Json

/-- Text without meaning: spaces, tabs and line ends. -/
def Blanks (text : List Char) : Prop := ∀ c ∈ text, c ∈ [' ', '\t', '\n', '\r']

/-- There may be no space at all. -/
theorem Blanks.nil : Blanks [] := fun _ hm => absurd hm List.not_mem_nil

/-- There may be a single blank. -/
theorem Blanks.single {c : Char} (h : c ∈ [' ', '\t', '\n', '\r']) : Blanks [c] :=
  List.forall_mem_singleton.mpr h

namespace Token

/-- The spellings of tokens. Integers are spelled without a superfluous zero and lie
between `-2^64` and `2^64`. -/
inductive Spelled : Token → List Char → Prop
  /-- An opening brace. -/
  | openBrace : Spelled .openBrace ['\x7b']
  /-- A closing brace. -/
  | closeBrace : Spelled .closeBrace ['\x7d']
  /-- An opening bracket. -/
  | openBracket : Spelled .openBracket ['[']
  /-- A closing bracket. -/
  | closeBracket : Spelled .closeBracket [']']
  /-- The mark behind a key. -/
  | colon : Spelled .colon [':']
  /-- The mark between members or items. -/
  | comma : Spelled .comma [',']
  /-- The absent value. -/
  | null : Spelled .null ['n', 'u', 'l', 'l']
  /-- A truth value. -/
  | bool (b : Bool) : Spelled (.bool b) (Text.truth b).toList
  /-- A natural number. -/
  | natural {n : Nat} (h : n < Nat.pow 2 64) :
      Spelled (.number (.natural n)) (Nat.toDigits 10 n)
  /-- An integer with a minus sign. -/
  | minus {n : Nat} (h : n < Nat.pow 2 64) :
      Spelled (.number (.minus n)) ('-' :: Nat.toDigits 10 n)
  /-- Quoted text. -/
  | text {body content : List Char} (h : Quoted body content) :
      Spelled (.text (some (String.ofList content))) ('\x22' :: body ++ ['\x22'])

/-- A text that spells tokens in order, with blanks around them. -/
inductive Spaced : List Token → List Char → Prop
  /-- Blanks spell no token. -/
  | nil {blanks : List Char} (hb : Blanks blanks) : Spaced [] blanks
  /-- Blanks, and then the spelling of a token. -/
  | cons {t : Token} {tokens : List Token} {blanks lexeme rest : List Char}
      (hb : Blanks blanks) (ht : Spelled t lexeme) (h : Spaced tokens rest) :
      Spaced (t :: tokens) (blanks ++ lexeme ++ rest)

/-- Whether a token is a number. -/
def isNumber : Token → Bool
  | .number _ => true
  | _ => false

/-- Two tokens that may touch each other: they are not both numbers. -/
def Apart (s t : Token) : Prop := s.isNumber = true → t.isNumber = false

/-- The natural numbers among some tokens are below `2^64`. -/
def Small (tokens : List Token) : Prop :=
  ∀ n, .number (.natural n) ∈ tokens → n < Nat.pow 2 64

/-- They are among the tokens behind the first one. -/
theorem Small.tail {t : Token} {tokens : List Token} (h : Small (t :: tokens)) :
    Small tokens := fun n hm => h n (List.mem_cons_of_mem _ hm)

/-- They are among the last tokens. -/
theorem Small.right {tokens others : List Token} (h : Small (tokens ++ others)) :
    Small others := fun n hm => h n (List.mem_append_right _ hm)

/-- A comma in front of tokens is no number. -/
theorem Small.comma {tokens : List Token} (h : Small tokens) : Small (.comma :: tokens) := by
  intro n hm
  rcases List.mem_cons.mp hm with he | hm
  · cases he
  · exact h n hm

variable {t : Token} {tokens : List Token} {c : Char} {text lexeme blanks rest : List Char}

/-- The blanks are four characters. -/
theorem isBlank_iff : isBlank c = true ↔ c ∈ [' ', '\t', '\n', '\r'] := by
  simp [isBlank, or_assoc]

/-- A blank is no digit, and no number goes on with it. -/
theorem of_isBlank (hc : isBlank c = true) :
    c.isDigit = false ∧ c ≠ '.' ∧ c ≠ 'e' ∧ c ≠ 'E' := by
  simp only [isBlank, Bool.or_eq_true, decide_eq_true_eq] at hc
  rcases hc with ((rfl | rfl) | rfl) | rfl <;> decide

/-- A digit is no blank. -/
theorem isBlank_of_isDigit (hc : c.isDigit = true) : isBlank c = false := by
  apply Bool.eq_false_iff.mpr
  intro hb
  rw [(of_isBlank hb).1] at hc
  cases hc

/-- Blanks are passed over. -/
theorem ofChars_blanks (hb : Blanks blanks) (rest : List Char) :
    ofChars (blanks ++ rest) = ofChars rest := by
  induction blanks with
  | nil => rw [List.nil_append]
  | cons c blanks ih =>
    have hc := isBlank_iff.mpr (hb c List.mem_cons_self)
    rw [List.cons_append, ofChars_blank hc, ih fun d hd => hb d (List.mem_cons_of_mem _ hd)]

/-- A token that is read comes first. -/
theorem ofChars_of_scan (hc : isBlank c = false) (hs : scan c text = some (t, rest)) :
    ofChars (c :: text) = t :: ofChars rest := by
  rw [ofChars, if_neg (by simp [hc])]
  split
  · rename_i token tail h
    rw [hs] at h
    cases h
    rfl
  · rename_i h
    rw [hs] at h
    cases h

/-- Where nothing is read stands something that is no token. -/
theorem ofChars_of_not_scan (hc : isBlank c = false) (hs : scan c text = none) :
    ofChars (c :: text) = [.bad] := by
  rw [ofChars, if_neg (by simp [hc])]
  split
  · rename_i h
    rw [hs] at h
    cases h
  · rfl

/-- A digit or a minus sign begins a number. -/
theorem scan_eq_scanNumber (hc : c.isDigit = true ∨ c = '-') (text : List Char) :
    scan c text = scanNumber (c :: text) := by
  unfold scan
  split
  case h_11 => rfl
  -- No other token begins with a digit or a minus sign.
  all_goals exact absurd hc (by decide)

/-- The spelling of a token is read up to its end. -/
theorem scan_of_spelled (ht : Spelled t lexeme)
    (hr : t.isNumber = true → Literal.Stops rest) : ∃ c text, lexeme = c :: text ∧
      isBlank c = false ∧ scan c (text ++ rest) = some (t, rest) := by
  cases ht with
  | bool b =>
    cases b with
    | false => exact ⟨'f', ['a', 'l', 's', 'e'], rfl, rfl, by simp [scan, scanWord]⟩
    | true => exact ⟨'t', ['r', 'u', 'e'], rfl, rfl, by simp [scan, scanWord]⟩
  | null => exact ⟨'n', ['u', 'l', 'l'], rfl, rfl, by simp [scan, scanWord]⟩
  | @natural n h =>
    cases hd : Nat.toDigits 10 n with
    | nil => exact absurd hd Nat.toDigits_ne_nil
    | cons c text =>
      have hm : c ∈ Nat.toDigits 10 n := by
        rw [hd]
        exact List.mem_cons_self
      have hi := Nat.isDigit_of_mem_toDigits (by decide) (Nat.le_refl 10) hm
      refine ⟨c, text, rfl, isBlank_of_isDigit hi, ?_⟩
      rw [scan_eq_scanNumber (Or.inl hi), ← List.cons_append, ← hd, scanNumber,
        Literal.scan_of_minus (Literal.scanMinus_toDigits n rest) (hr rfl)]
      dsimp only
      rw [Literal.number_toDigits h]
  | @minus n h =>
    have hm : Literal.scanMinus ('-' :: (Nat.toDigits 10 n ++ rest)) =
        (true, Nat.toDigits 10 n ++ rest) := rfl
    refine ⟨'-', Nat.toDigits 10 n, rfl, rfl, ?_⟩
    rw [scan_eq_scanNumber (Or.inr rfl), scanNumber, Literal.scan_of_minus hm (hr rfl)]
    dsimp only
    rw [Literal.number_minus_toDigits h]
  | @text body content h =>
    obtain ⟨pieces, hs, ha⟩ := Piece.scan_of_quoted h rest
    refine ⟨'\x22', body ++ ['\x22'], rfl, rfl, ?_⟩
    rw [List.append_assoc, List.singleton_append]
    show scanText (body ++ '\x22' :: rest) = _
    rw [scanText, hs]
    dsimp only
    rw [ha, Option.map_some]
  | _ => exact ⟨_, [], rfl, rfl, rfl⟩

/-- The spelling of a token is cut off the front of a text. -/
theorem ofChars_spelled (ht : Spelled t lexeme)
    (hr : t.isNumber = true → Literal.Stops rest) :
    ofChars (lexeme ++ rest) = t :: ofChars rest := by
  obtain ⟨c, text, rfl, hc, hs⟩ := scan_of_spelled ht hr
  exact ofChars_of_scan hc hs

/-- No number goes on with a blank. -/
theorem stops_of_isBlank (hc : isBlank c = true) : Literal.Stops (c :: rest) := by
  intro d hm
  cases hm
  exact of_isBlank hc

/-- No number goes on with a token that is no number itself. -/
theorem stops_of_spelled (ht : Spelled t lexeme) (hn : t.isNumber = false) :
    Literal.Stops (lexeme ++ rest) := by
  cases ht with
  | natural h => cases hn
  | minus h => cases hn
  | bool b =>
    intro d hm
    cases b <;> cases hm <;> decide
  | _ =>
    intro d hm
    cases hm
    decide

/-- A text that spells tokens stops a number if it does not begin with another one. -/
theorem Spaced.stops (h : Spaced tokens text) (hn : ∀ t ∈ tokens.head?, t.isNumber = false) :
    Literal.Stops text := by
  have hb : ∀ {blanks : List Char}, Blanks blanks → ∀ {rest : List Char},
      (blanks = [] → Literal.Stops rest) → Literal.Stops (blanks ++ rest) := by
    intro blanks hb rest hr
    cases blanks with
    | nil => exact hr rfl
    | cons c blanks => exact stops_of_isBlank (isBlank_iff.mpr (hb c List.mem_cons_self))
  cases h with
  | nil h =>
    rw [← List.append_nil text]
    exact hb h fun _ d hd => absurd hd (by simp)
  | cons h ht hs =>
    rw [List.append_assoc]
    exact hb h fun _ => stops_of_spelled ht (hn _ rfl)

/-- A text that spells tokens is cut into them. -/
theorem ofChars_of_spaced (h : Spaced tokens text) (ha : tokens.IsChain Apart) :
    ofChars text = tokens := by
  induction h with
  | @nil blanks hb =>
    have hc := ofChars_blanks hb []
    rw [List.append_nil, ofChars] at hc
    exact hc
  | @cons t tokens blanks lexeme rest hb ht h ih =>
    obtain ⟨hn, hc⟩ := List.isChain_cons.mp ha
    have hr : t.isNumber = true → Literal.Stops rest := fun hi =>
      h.stops fun next hm => hn next hm hi
    rw [List.append_assoc, ofChars_blanks hb, ofChars_spelled ht hr, ih hc]

/-- Whether a token says something that is looked at: text that can be held, a natural
number, or no number at all. -/
def IsPlain : Token → Prop
  | .bad => False
  | .text none => False
  | .number (.natural _) => True
  | .number _ => False
  | _ => True

/-- Blanks in front of tokens change nothing. -/
theorem Spaced.pad (hb : Blanks blanks) (h : Spaced tokens text) :
    Spaced tokens (blanks ++ text) := by
  have ha : ∀ {others : List Char}, Blanks others → Blanks (blanks ++ others) := fun ho =>
    List.forall_mem_append.mpr ⟨hb, ho⟩
  cases h with
  | nil h => exact .nil (ha h)
  | cons h ht hs =>
    rw [← List.append_assoc, ← List.append_assoc]
    exact .cons (ha h) ht hs

/-- The spelling of a token in front of others. -/
theorem Spaced.spelled (ht : Spelled t lexeme) (h : Spaced tokens text) :
    Spaced (t :: tokens) (lexeme ++ text) :=
  .cons .nil ht h

/-- Only natural numbers below `2^64` are spelled. -/
theorem lt_of_spelled {n : Nat} (h : Spelled t lexeme) (ht : t = .number (.natural n)) :
    n < Nat.pow 2 64 := by
  cases h with
  | natural hn =>
    cases ht
    exact hn
  | @minus m hm =>
    have he := Token.number.inj ht
    unfold Number.minus at he
    split at he <;> cases he
  | _ => cases ht

/-- The natural numbers in a text that spells tokens are below `2^64`. -/
theorem Spaced.small (h : Spaced tokens text) : Small tokens := by
  intro n hm
  induction h with
  | nil hb => exact absurd hm List.not_mem_nil
  | cons hb ht h ih =>
    rcases List.mem_cons.mp hm with he | hm
    · exact lt_of_spelled ht he.symm
    · exact ih hm

/-- A word of the format that is read stands in the text. -/
theorem of_scanWord {word : List Char} {token : Token}
    (h : scanWord word token text = some (t, rest)) : t = token ∧ text = word ++ rest := by
  unfold scanWord at h
  split at h
  · rename_i hp
    cases h
    obtain ⟨tail, rfl⟩ := List.isPrefixOf_iff_prefix.mp hp
    rw [List.drop_left]
    exact ⟨rfl, rfl⟩
  · cases h

/-- A plain token that is read is spelled in the text. -/
theorem spelled_of_scan (hs : scan c text = some (t, rest)) (hp : t.IsPlain) :
    ∃ lexeme, c :: text = lexeme ++ rest ∧ Spelled t lexeme := by
  unfold scan at hs
  split at hs
  case h_7 =>
    obtain ⟨rfl, rfl⟩ := of_scanWord hs
    exact ⟨_, rfl, .null⟩
  case h_8 =>
    obtain ⟨rfl, rfl⟩ := of_scanWord hs
    exact ⟨_, rfl, .bool true⟩
  case h_9 =>
    obtain ⟨rfl, rfl⟩ := of_scanWord hs
    exact ⟨_, rfl, .bool false⟩
  case h_10 =>
    unfold scanText at hs
    split at hs
    · rename_i pieces tail hq
      cases hs
      cases ha : Piece.assemble pieces with
      | none =>
        rw [ha] at hp
        exact hp.elim
      | some content =>
        obtain ⟨body, rfl, hw⟩ := Piece.scan_assemble_iff.mp ⟨pieces, hq, ha⟩
        refine ⟨'\x22' :: body ++ ['\x22'], ?_, .text hw⟩
        rw [List.append_assoc, List.cons_append, List.singleton_append]
    · cases hs
  case h_11 =>
    unfold scanNumber at hs
    split at hs
    · rename_i l tail hl
      cases hs
      cases hn : l.number with
      | natural n =>
        obtain ⟨ht, hb⟩ := Literal.eq_toDigits_of_scan hl hn
        exact ⟨_, ht, .natural hb⟩
      | _ =>
        rw [hn] at hp
        exact hp.elim
    · cases hs
  -- The other tokens are single characters.
  all_goals
    cases hs
    exact ⟨_, rfl, by constructor⟩

/-- A text that is cut into plain tokens spells them. -/
theorem spaced_ofChars (hp : ∀ t ∈ ofChars text, t.IsPlain) : Spaced (ofChars text) text := by
  induction text using ofChars.induct with
  | case1 =>
    rw [ofChars]
    exact .nil .nil
  | case2 c text hb ih =>
    rw [ofChars_blank hb] at hp ⊢
    have hc : Blanks [c] := List.forall_mem_singleton.mpr (isBlank_iff.mp hb)
    exact (ih hp).pad hc
  | case3 c text hb t rest hs ih =>
    rw [ofChars_of_scan (Bool.eq_false_iff.mpr hb) hs] at hp ⊢
    obtain ⟨lexeme, he, ht⟩ := spelled_of_scan hs (hp t List.mem_cons_self)
    rw [he]
    exact .spelled ht (ih fun u hu => hp u (List.mem_cons_of_mem _ hu))
  | case4 c text hb hs =>
    rw [ofChars_of_not_scan (Bool.eq_false_iff.mpr hb) hs] at hp
    exact (hp .bad List.mem_cons_self).elim

end Token

end Chip8.Json
