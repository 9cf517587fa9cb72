import Chip8.Json.Printer
import Chip8.Json.QuotedText

/-!
# Quoted text

What text in quotes says, as a grammar: characters that stand for themselves, escapes
of one letter, and escapes of four hexadecimal digits, alone or as a pair. Reading
quoted text decides this grammar, and printed text is one way to say it.
-/

namespace Chip8.Json

/-- The hexadecimal digits, in either case. -/
inductive HexDigit : Char → Nat → Prop
  /-- A digit, or a small letter. -/
  | lower {n : Nat} (h : n < 16) : HexDigit n.digitChar n
  /-- A digit, or a capital letter. -/
  | upper {n : Nat} (h : n < 16) : HexDigit n.digitChar.toUpper n

/-- Four hexadecimal digits and the number that they write. -/
inductive FourDigits : List Char → Nat → Prop
  /-- The first digit counts most. -/
  | mk {a b c d : Char} {i j k l : Nat} (ha : HexDigit a i) (hb : HexDigit b j)
      (hc : HexDigit c k) (hd : HexDigit d l) :
      FourDigits [a, b, c, d] (4096 * i + 256 * j + 16 * k + l)

/-- The escapes of one letter and the characters that they name. -/
def shortEscapes : List (Char × Char) :=
  [('\x22', '\x22'), ('\\', '\\'), ('/', '/'), ('b', '\x08'), ('f', '\x0c'), ('n', '\n'),
    ('r', '\r'), ('t', '\t')]

/-- What stands between two quotes, and the text that it says. -/
inductive Quoted : List Char → List Char → Prop
  /-- Nothing says nothing. -/
  | nil : Quoted [] []
  /-- A character that stands for itself. -/
  | plain {c : Char} {body content : List Char} (hq : c ≠ '\x22') (hb : c ≠ '\\')
      (hc : 0x20 ≤ c.toNat) (h : Quoted body content) : Quoted (c :: body) (c :: content)
  /-- A character that is named by a letter. -/
  | short {e c : Char} {body content : List Char} (he : (e, c) ∈ shortEscapes)
      (h : Quoted body content) : Quoted ('\\' :: e :: body) (c :: content)
  /-- A character that is named by its number. -/
  | unit {digits body content : List Char} {n : Nat} (hd : FourDigits digits n)
      (hn : ¬(0xD800 ≤ n ∧ n < 0xE000)) (h : Quoted body content) :
      Quoted ('\\' :: 'u' :: digits ++ body) (Char.ofNat n :: content)
  /-- A character that is named by the two halves of a pair. -/
  | pair {digits others body content : List Char} {n m : Nat} (hd : FourDigits digits n)
      (ho : FourDigits others m) (hn : 0xD800 ≤ n ∧ n < 0xDC00)
      (hm : 0xDC00 ≤ m ∧ m < 0xE000) (h : Quoted body content) :
      Quoted ('\\' :: 'u' :: digits ++ '\\' :: 'u' :: others ++ body)
        (Char.ofNat (0x10000 + 0x400 * (n - 0xD800) + (m - 0xDC00)) :: content)

namespace Piece

/-- Pieces and what is written for them. -/
inductive Written : List Piece → List Char → Prop
  /-- Nothing is written for no pieces. -/
  | nil : Written [] []
  /-- A character that stands for itself. -/
  | plain {c : Char} (hq : c ≠ '\x22') (hb : c ≠ '\\') (hc : 0x20 ≤ c.toNat)
      {pieces : List Piece} {body : List Char} (h : Written pieces body) :
      Written (.char c :: pieces) (c :: body)
  /-- An escape of one letter. -/
  | short {e c : Char} (he : (e, c) ∈ shortEscapes) {pieces : List Piece}
      {body : List Char} (h : Written pieces body) :
      Written (.char c :: pieces) ('\\' :: e :: body)
  /-- An escape of four digits. -/
  | unit {digits : List Char} {n : Nat} (hd : FourDigits digits n) {pieces : List Piece}
      {body : List Char} (h : Written pieces body) :
      Written (.unit n :: pieces) ('\\' :: 'u' :: digits ++ body)

variable {text rest body content : List Char} {pieces : List Piece}

/-- Only small characters are hexadecimal digits. -/
theorem toNat_lt_of_hexValue {c : Char} {n : Nat} (h : hexValue? c = some n) :
    c.toNat < 128 := by
  unfold hexValue? at h
  have hle : ∀ {d : Char}, c ≤ d → c.toNat ≤ d.toNat := fun hc => hc
  split at h
  · rename_i hc
    exact Nat.lt_of_le_of_lt (hle hc.2) (by decide)
  · split at h
    · rename_i hc
      exact Nat.lt_of_le_of_lt (hle hc.2) (by decide)
    · split at h
      · rename_i hc
        exact Nat.lt_of_le_of_lt (hle hc.2) (by decide)
      · cases h

/-- The digits that are read are the hexadecimal digits. -/
theorem hexValue?_eq_some_iff {c : Char} {n : Nat} : hexValue? c = some n ↔ HexDigit c n := by
  have hread : ∀ k < 128, ∀ v ∈ hexValue? (Char.ofNat k), v < 16 ∧
      (Char.ofNat k = v.digitChar ∨ Char.ofNat k = v.digitChar.toUpper) := by decide
  have hwrite : ∀ v < 16, hexValue? v.digitChar = some v ∧
      hexValue? v.digitChar.toUpper = some v := by decide
  constructor
  · intro h
    have hc := hread c.toNat (toNat_lt_of_hexValue h) n
    rw [Char.ofNat_toNat] at hc
    obtain ⟨hn, hl | hu⟩ := hc h
    · rw [hl]
      exact .lower hn
    · rw [hu]
      exact .upper hn
  · rintro (hn | hn)
    · exact (hwrite n hn).1
    · exact (hwrite n hn).2

/-- The numbers that are read are those of four digits. -/
theorem unitValue?_eq_some_iff {a b c d : Char} {v : Nat} :
    unitValue? a b c d = some v ↔ FourDigits [a, b, c, d] v := by
  constructor
  · intro h
    unfold unitValue? at h
    split at h
    · rename_i ha hb hc hd
      cases h
      exact .mk (hexValue?_eq_some_iff.mp ha) (hexValue?_eq_some_iff.mp hb)
        (hexValue?_eq_some_iff.mp hc) (hexValue?_eq_some_iff.mp hd)
    · cases h
  · rintro ⟨ha, hb, hc, hd⟩
    rw [unitValue?, hexValue?_eq_some_iff.mpr ha, hexValue?_eq_some_iff.mpr hb,
      hexValue?_eq_some_iff.mpr hc, hexValue?_eq_some_iff.mpr hd]

/-- The letters that are read are those of the escapes of one letter. -/
theorem shortEscape?_eq_some_iff {e c : Char} :
    shortEscape? e = some c ↔ (e, c) ∈ shortEscapes := by
  constructor
  · intro h
    unfold shortEscape? at h
    split at h <;> cases h <;> decide
  · intro h
    have hall : ∀ p ∈ shortEscapes, shortEscape? p.1 = some p.2 := by decide
    exact hall (e, c) h

/-- A character that stands for itself is a piece. -/
theorem scan_plain {c : Char} (hq : c ≠ '\x22') (hb : c ≠ '\\') (hc : 0x20 ≤ c.toNat)
    (rest : List Char) : scan (c :: rest) = consTo (.char c) (scan rest) := by
  have h4 : ∀ a b d e tail, c = '\\' → rest = 'u' :: a :: b :: d :: e :: tail → False :=
    fun _ _ _ _ _ he => absurd he hb
  rw [scan.eq_5 c rest hq h4 fun _ _ he => absurd he hb, if_neg (by omega)]

/-- An escape of one letter is a piece. -/
theorem scan_short {e c : Char} (he : shortEscape? e = some c) (rest : List Char) :
    scan ('\\' :: e :: rest) = consTo (.char c) (scan rest) := by
  have hu : e ≠ 'u' := by
    rintro rfl
    cases he
  rw [scan.eq_4 e rest fun _ _ _ _ _ h => absurd h hu, he]

/-- An escape of four digits is a piece. -/
theorem scan_unit {digits : List Char} {v : Nat} (hd : FourDigits digits v)
    (rest : List Char) :
    scan ('\\' :: 'u' :: (digits ++ rest)) = consTo (.unit v) (scan rest) := by
  obtain ⟨a, b, c, d, rfl⟩ : ∃ a b c d, digits = [a, b, c, d] := by
    cases hd
    exact ⟨_, _, _, _, rfl⟩
  rw [List.cons_append, List.cons_append, List.cons_append, List.cons_append, List.nil_append,
    scan, unitValue?_eq_some_iff.mpr hd]

/-- A number that is no half of a pair stands for one character. -/
theorem assemble_unit {n : Nat} (hl : isLeading n = false) (ht : isTrailing n = false)
    (pieces : List Piece) :
    assemble (.unit n :: pieces) = (assemble pieces).map (Char.ofNat n :: ·) := by
  rw [assemble.eq_def]
  simp only [hl, ht, Bool.false_eq_true, if_false]

/-- The two halves of a pair stand for one character. -/
theorem assemble_pair {n m : Nat} (hl : isLeading n = true) (ht : isTrailing m = true)
    (pieces : List Piece) :
    assemble (.unit n :: .unit m :: pieces) = (assemble pieces).map (pairChar n m :: ·) := by
  rw [assemble, if_pos hl, if_pos ht]

/-- What is said between quotes is read. -/
theorem scan_of_quoted (h : Quoted body content) (rest : List Char) :
    ∃ pieces, scan (body ++ '\x22' :: rest) = some (pieces, rest) ∧
      assemble pieces = some content := by
  induction h with
  | nil => exact ⟨[], by rw [List.nil_append, scan], rfl⟩
  | @plain c body content hq hb hc h ih =>
    obtain ⟨pieces, hs, ha⟩ := ih
    refine ⟨.char c :: pieces, ?_, ?_⟩
    · rw [List.cons_append, scan_plain hq hb hc, hs, consTo]
    · rw [assemble, ha, Option.map_some]
  | @short e c body content he h ih =>
    obtain ⟨pieces, hs, ha⟩ := ih
    refine ⟨.char c :: pieces, ?_, ?_⟩
    · rw [List.cons_append, List.cons_append, scan_short (shortEscape?_eq_some_iff.mpr he), hs,
        consTo]
    · rw [assemble, ha, Option.map_some]
  | @unit digits body content n hd hn h ih =>
    obtain ⟨pieces, hs, ha⟩ := ih
    refine ⟨.unit n :: pieces, ?_, ?_⟩
    · rw [List.cons_append, List.cons_append, List.cons_append, List.cons_append,
        List.append_assoc, scan_unit hd, hs, consTo]
    · have hl : isLeading n = false := decide_eq_false (by omega)
      have ht : isTrailing n = false := decide_eq_false (by omega)
      rw [assemble_unit hl ht, ha, Option.map_some]
  | @pair digits others body content n m hd ho hn hm h ih =>
    obtain ⟨pieces, hs, ha⟩ := ih
    refine ⟨.unit n :: .unit m :: pieces, ?_, ?_⟩
    · simp only [List.cons_append, List.append_assoc]
      rw [scan_unit hd, scan_unit ho, hs, consTo, consTo]
    · have hl : isLeading n = true := decide_eq_true hn
      have ht : isTrailing m = true := decide_eq_true hm
      rw [assemble_pair hl ht, ha, Option.map_some, pairChar]

/-- What is read behind a piece is what remains behind it. -/
theorem of_consTo {p : Piece} {read : Option (List Piece × List Char)}
    (h : consTo p read = some (pieces, rest)) :
    ∃ tail, read = some (tail, rest) ∧ pieces = p :: tail := by
  cases read with
  | none => cases h
  | some found =>
    rcases found with ⟨tail, r⟩
    cases h
    exact ⟨tail, rfl, rfl⟩

/-- The pieces that are read are written up to the closing quote. -/
theorem written_of_scan (h : scan text = some (pieces, rest)) :
    ∃ body, text = body ++ '\x22' :: rest ∧ Written pieces body := by
  induction text using scan.induct generalizing pieces with
  | case1 => simp [scan] at h
  | case2 tail =>
    rw [scan] at h
    cases h
    exact ⟨[], rfl, .nil⟩
  | case3 a b c d tail value hv ih =>
    rw [scan, hv] at h
    obtain ⟨others, hs, rfl⟩ := of_consTo h
    obtain ⟨body, rfl, hw⟩ := ih hs
    exact ⟨_, rfl, .unit (unitValue?_eq_some_iff.mp hv) hw⟩
  | case4 a b c d tail hv =>
    rw [scan, hv] at h
    cases h
  | case5 e tail hu c he ih =>
    rw [scan.eq_4 e tail hu, he] at h
    obtain ⟨others, hs, rfl⟩ := of_consTo h
    obtain ⟨body, rfl, hw⟩ := ih hs
    exact ⟨_, rfl, .short (shortEscape?_eq_some_iff.mp he) hw⟩
  | case6 e tail hu he =>
    rw [scan.eq_4 e tail hu, he] at h
    cases h
  | case7 c tail hq hu hb hc =>
    rw [scan.eq_5 c tail hq hu hb, if_pos hc] at h
    cases h
  | case8 c tail hq hu hb hc ih =>
    rw [scan.eq_5 c tail hq hu hb, if_neg hc] at h
    obtain ⟨others, hs, rfl⟩ := of_consTo h
    -- A backslash at the end of the text has no closing quote behind it.
    have hn : c ≠ '\\' := by
      intro he
      cases tail with
      | nil => simp [scan] at hs
      | cons e tail => exact hb e tail he rfl
    obtain ⟨body, rfl, hw⟩ := ih hs
    exact ⟨c :: body, rfl, .plain hq hn (by omega) hw⟩

/-- Pieces that can be put together say their text. -/
theorem quoted_of_written (h : Written pieces body) (ha : assemble pieces = some content) :
    Quoted body content := by
  induction pieces using assemble.induct generalizing body content with
  | case1 =>
    cases h
    cases ha
    exact .nil
  | case2 c pieces ih =>
    rw [assemble] at ha
    obtain ⟨others, hs, rfl⟩ := Option.map_eq_some_iff.mp ha
    cases h with
    | plain hq hb hc h => exact .plain hq hb hc (ih h hs)
    | short he h => exact .short he (ih h hs)
  | case3 n hl m pieces ht ih =>
    rw [assemble_pair hl ht] at ha
    obtain ⟨others, hs, rfl⟩ := Option.map_eq_some_iff.mp ha
    cases h with
    | unit hd h =>
      cases h with
      | unit ho h =>
        rw [← List.append_assoc]
        exact .pair hd ho (of_decide_eq_true hl) (of_decide_eq_true ht) (ih h hs)
  | case4 n hl m pieces ht =>
    rw [assemble, if_pos hl, if_neg ht] at ha
    cases ha
  | case5 n pieces hl hp =>
    rw [assemble.eq_4 n pieces hp, if_pos hl] at ha
    cases ha
  | case6 n pieces hl ht =>
    rw [assemble.eq_def] at ha
    simp only [hl, ht] at ha
    cases ha
  | case7 n pieces hl ht ih =>
    have hn : ¬(0xD800 ≤ n ∧ n < 0xE000) := by
      rw [isLeading, decide_eq_true_eq] at hl
      rw [isTrailing, decide_eq_true_eq] at ht
      omega
    rw [assemble_unit (Bool.eq_false_iff.mpr hl) (Bool.eq_false_iff.mpr ht)] at ha
    obtain ⟨others, hs, rfl⟩ := Option.map_eq_some_iff.mp ha
    cases h with
    | unit hd h => exact .unit hd hn (ih h hs)

/-- Quoted text is read exactly when it says something. -/
theorem scan_assemble_iff : (∃ pieces, scan text = some (pieces, rest) ∧
    assemble pieces = some content) ↔
      ∃ body, text = body ++ '\x22' :: rest ∧ Quoted body content := by
  constructor
  · rintro ⟨pieces, hs, ha⟩
    obtain ⟨body, ht, hw⟩ := written_of_scan hs
    exact ⟨body, ht, quoted_of_written hw ha⟩
  · rintro ⟨body, rfl, hq⟩
    exact scan_of_quoted hq rest

end Piece

/-- The escape of a control character writes its number. -/
theorem fourDigits_hexDigits {n : Nat} (h : n < 0x20) : FourDigits (Text.hexDigits 4 n) n := by
  have hd : ∀ k < 0x20, Text.hexDigits 4 k =
      ['0', '0', (k / 16).digitChar, (k % 16).digitChar] := by decide
  have hz : HexDigit '0' 0 := .lower (n := 0) (by decide)
  have hf := FourDigits.mk hz hz (.lower (n := n / 16) (by omega))
    (.lower (n := n % 16) (by omega))
  have hn : 4096 * 0 + 256 * 0 + 16 * (n / 16) + n % 16 = n := by omega
  rw [hn] at hf
  rw [hd n h]
  exact hf

/-- A character as it is printed says itself. -/
theorem quoted_escapedChar (c : Char) {body content : List Char} (h : Quoted body content) :
    Quoted (escapedChar c ++ body) (c :: content) := by
  unfold escapedChar
  split
  case h_8 hq hb _ _ _ _ _ =>
    split
    · rename_i hc
      have hu := Quoted.unit (fourDigits_hexDigits hc) (by omega) h
      rw [Char.ofNat_toNat] at hu
      exact hu
    · exact .plain hq hb (by omega) h
  -- Every other character has an escape of one letter.
  all_goals exact .short (by decide) h

/-- Text as it is printed says itself. -/
theorem quoted_flatMap_escapedChar (content : List Char) :
    Quoted (content.flatMap escapedChar) content := by
  induction content with
  | nil => exact .nil
  | cons c content ih => exact quoted_escapedChar c ih

end Chip8.Json
