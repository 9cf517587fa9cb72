import Chip8.Json.QuotedText
import Chip8.Proofs.Faults

/-!
# Texts that tell values apart

An address is written in hexadecimal digits, which can be read back, so no two addresses
share a text. The message of an instruction that has failed tells how and where it has
failed, and the text of a pause tells its reason.
-/

namespace Chip8

namespace Text

/-- The number that hexadecimal digits write. -/
def hexNumber (digits : List Char) : Nat :=
  digits.foldl (fun n c => 16 * n + (Json.Piece.hexValue? c).getD 0) 0

/-- One more digit counts for itself, and those before it for sixteen times as much. -/
theorem hexNumber_concat (digits : List Char) (c : Char) :
    hexNumber (digits ++ [c]) =
      16 * hexNumber digits + (Json.Piece.hexValue? c).getD 0 := by
  rw [hexNumber, List.foldl_append]
  rfl

/-- The digit of a small number is read as that number. -/
theorem hexValue?_digitChar {n : Nat} (hn : n < 16) :
    Json.Piece.hexValue? n.digitChar = some n := by
  have hall : ∀ k < 16, Json.Piece.hexValue? k.digitChar = some k := by decide
  exact hall n hn

/-- The digits of a number write it. -/
theorem hexNumber_toDigits (n : Nat) : hexNumber (Nat.toDigits 16 n) = n := by
  induction n using Nat.strongRecOn with
  | ind n ih =>
    by_cases hn : n < 16
    · rw [Nat.toDigits_of_lt_base hn, ← List.nil_append [n.digitChar], hexNumber_concat,
        hexValue?_digitChar hn]
      exact Nat.zero_add n
    · have hd : n / 16 < n := by omega
      have hm : n % 16 < 16 := by omega
      rw [Nat.toDigits_of_base_le (by decide) (by omega), hexNumber_concat, ih (n / 16) hd,
        hexValue?_digitChar hm]
      exact Nat.div_add_mod n 16

/-- Zeros in front change nothing. -/
theorem hexNumber_replicate_append (k : Nat) (digits : List Char) :
    hexNumber (List.replicate k '0' ++ digits) = hexNumber digits := by
  induction k with
  | zero => rfl
  | succ k ih =>
    rw [List.replicate_succ]
    exact ih

/-- Digits that are filled up with zeros write the same number. -/
theorem hexNumber_hexDigits (width n : Nat) : hexNumber (hexDigits width n) = n := by
  rw [hexDigits, hexNumber_replicate_append, hexNumber_toDigits]

/-- Different addresses have different texts. -/
theorem address_injective : Function.Injective address := by
  intro a b h
  have hd : hexDigits 3 a.toNat = hexDigits 3 b.toNat :=
    String.ofList_injective ((String.append_right_inj _).mp h)
  apply UInt16.toNat_inj.mp
  calc a.toNat
    _ = hexNumber (hexDigits 3 a.toNat) := (hexNumber_hexDigits 3 _).symm
    _ = hexNumber (hexDigits 3 b.toNat) := by rw [hd]
    _ = b.toNat := hexNumber_hexDigits 3 _

end Text

namespace EngineError

variable {a b : UInt16} {depth : Nat}

/-- The message of a call that fails tells where it is. -/
theorem address_of_overflow
    (h : (stackOverflow a depth).message = (stackOverflow b depth).message) : a = b := by
  unfold message at h
  simp only [String.append_left_inj, String.append_right_inj] at h
  exact Text.address_injective h

/-- The message of a return that fails tells where it is. -/
theorem address_of_underflow
    (h : (stackUnderflow a).message = (stackUnderflow b).message) : a = b := by
  unfold message at h
  simp only [String.append_left_inj, String.append_right_inj] at h
  exact Text.address_injective h

/-- The message tells a call that fails from a return that fails. -/
theorem message_overflow_ne_underflow :
    (stackOverflow a depth).message ≠ (stackUnderflow b).message := by
  intro h
  -- The messages differ where the one says that the stack is too full.
  have hl := congrArg (fun text => text.toList[6]?) h
  unfold message at hl
  simp only [String.toList_append] at hl
  simp at hl

end EngineError

/-- The message of an instruction that has failed tells how and where it has failed. -/
theorem Machine.Faults.eq_of_message {m n : Machine} {error other : EngineError}
    (h : m.Faults error) (k : n.Faults other) (he : error.message = other.message) :
    error = other := by
  cases h with
  | overflow hw hd =>
    cases k with
    | overflow kw kd => rw [EngineError.address_of_overflow he]
    | underflow kw kd => exact absurd he EngineError.message_overflow_ne_underflow
  | underflow hw hd =>
    cases k with
    | overflow kw kd => exact absurd he.symm EngineError.message_overflow_ne_underflow
    | underflow kw kd => rw [EngineError.address_of_underflow he]

namespace Debug.PauseReason

/-- A breakpoint is shown with its address in decimal digits. -/
theorem shown_breakpoint (pc : UInt16) :
    (breakpoint pc).shown = "Breakpoint \x7b " ++
      ("pc: " ++ String.ofList (Nat.toDigits 10 pc.toNat)) ++ " \x7d" :=
  rfl

/-- The letter with which a reason begins. -/
def initial : PauseReason → Char
  | .manual => 'M'
  | .breakpoint _ => 'B'
  | .stepsDone => 'S'

/-- The text of a reason begins with its letter. -/
theorem head?_shown (r : PauseReason) : r.shown.toList.head? = some r.initial := by
  cases r with
  | manual => rfl
  | breakpoint pc =>
    rw [shown_breakpoint, String.toList_append, String.toList_append]
    rfl
  | stepsDone => rfl

/-- The text of a breakpoint tells where it is. -/
theorem address_of_breakpoint {a b : UInt16}
    (h : (breakpoint a).shown = (breakpoint b).shown) : a = b := by
  rw [shown_breakpoint, shown_breakpoint, String.append_left_inj, String.append_right_inj,
    String.append_right_inj] at h
  have hd : Nat.toDigits 10 a.toNat = Nat.toDigits 10 b.toNat := String.ofList_injective h
  apply UInt16.toNat_inj.mp
  calc a.toNat
    _ = Nat.ofDigitChars 10 (Nat.toDigits 10 a.toNat) 0 := Nat.ofDigitChars_ten_toDigits.symm
    _ = Nat.ofDigitChars 10 (Nat.toDigits 10 b.toNat) 0 := by rw [hd]
    _ = b.toNat := Nat.ofDigitChars_ten_toDigits

/-- Different reasons are shown by different texts. -/
theorem shown_injective : Function.Injective shown := by
  intro r s h
  have hi : r.initial = s.initial := by
    apply Option.some.inj
    rw [← head?_shown, h, head?_shown]
  cases r <;> cases s
  case breakpoint.breakpoint a b => rw [address_of_breakpoint h]
  -- Reasons of different kinds begin with different letters.
  all_goals first
    | rfl
    | exact absurd hi (by simp [initial])

end Debug.PauseReason

end Chip8
