import Chip8.Json.Token

/-!
# Decimal literals

Which literals a number has. The digits of a natural number, as they are printed, are
the only unsigned literal without fraction and exponent that stands for it; such a
literal ends where nothing follows that could continue it.
-/

namespace Chip8.Json

/-- What the digits of a number behind a minus sign stand for. -/
def Number.minus (n : Nat) : Number :=
  if n = 0 ∨ Nat.pow 2 63 < n then .real else .negative n

namespace Literal

variable {n s : Nat} {digits rest text : List Char}

/-- A digit is the digit of its value. -/
theorem digitChar_of_isDigit {c : Char} (h : c.isDigit = true) :
    (c.toNat - '0'.toNat).digitChar = c ∧ c.toNat - '0'.toNat < 10 := by
  have hd : 48 ≤ c.toNat ∧ c.toNat ≤ 57 := by
    simpa [Char.isDigit, UInt32.le_iff_toNat_le] using h
  have hz : '0'.toNat = 48 := rfl
  have hv : c.toNat - '0'.toNat < 10 := by omega
  refine ⟨?_, hv⟩
  apply Char.toNat_inj.mp
  rw [Nat.toNat_digitChar_of_lt_ten hv]
  omega

/-- More digits make a number no smaller. -/
theorem le_ofDigitChars (digits : List Char) (s : Nat) : s ≤ Nat.ofDigitChars 10 digits s := by
  induction digits generalizing s with
  | nil => exact Nat.le_of_eq Nat.ofDigitChars_nil.symm
  | cons d digits ih =>
    rw [Nat.ofDigitChars_cons]
    have hl := ih (10 * s + (d.toNat - '0'.toNat))
    omega

/-- Digits behind a positive number are the last digits of the number they make. -/
theorem toDigits_ofDigitChars_append (hs : 0 < s) (hd : ∀ c ∈ digits, c.isDigit = true) :
    Nat.toDigits 10 (Nat.ofDigitChars 10 digits s) = Nat.toDigits 10 s ++ digits := by
  induction digits generalizing s with
  | nil => rw [Nat.ofDigitChars_nil, List.append_nil]
  | cons d digits ih =>
    obtain ⟨hc, hv⟩ := digitChar_of_isDigit (hd d List.mem_cons_self)
    have hp : 0 < 10 * s + (d.toNat - '0'.toNat) := by omega
    have ht := Nat.toDigits_append_toDigits (b := 10) (by decide) hs hv
    rw [Nat.toDigits_of_lt_base hv, hc] at ht
    rw [Nat.ofDigitChars_cons, ih hp fun c hm => hd c (List.mem_cons_of_mem _ hm), ← ht,
      List.append_assoc, List.singleton_append]

/-- Digits without a superfluous zero are the digits of the number they write. -/
theorem toDigits_ofDigitChars (hn : digits ≠ []) (hd : ∀ c ∈ digits, c.isDigit = true)
    (hz : ¬(digits.head? = some '0' ∧ 1 < digits.length)) :
    Nat.toDigits 10 (Nat.ofDigitChars 10 digits 0) = digits := by
  cases digits with
  | nil => exact absurd rfl hn
  | cons d digits =>
    obtain ⟨hc, hv⟩ := digitChar_of_isDigit (hd d List.mem_cons_self)
    rw [Nat.ofDigitChars_cons, Nat.mul_zero, Nat.zero_add]
    by_cases h0 : d.toNat - '0'.toNat = 0
    · have he : d = '0' := by
        rw [← hc, h0]
        rfl
      have hl : digits = [] := by
        apply List.eq_nil_of_length_eq_zero
        simp only [he, List.head?_cons, List.length_cons, true_and] at hz
        omega
      rw [hl, Nat.ofDigitChars_nil, Nat.toDigits_of_lt_base hv, hc]
    · have hr : ∀ c ∈ digits, c.isDigit = true := fun c hm => hd c (List.mem_cons_of_mem _ hm)
      rw [toDigits_ofDigitChars_append (by omega) hr, Nat.toDigits_of_lt_base hv, hc,
        List.singleton_append]

/-- The first digit of a number comes first, whatever follows it. -/
theorem head?_toDigits_append (n : Nat) (rest : List Char) :
    (Nat.toDigits 10 n ++ rest).head? = (Nat.toDigits 10 n).head? := by
  rw [List.head?_append, List.head?_eq_some_head Nat.toDigits_ne_nil, Option.some_or]

/-- A positive number does not begin with a zero. -/
theorem head?_toDigits_ne (h : 0 < n) : (Nat.toDigits 10 n).head? ≠ some '0' := by
  induction n using Nat.strongRecOn with
  | ind n ih =>
    by_cases hb : n < 10
    · rw [Nat.toDigits_of_lt_base hb]
      simp only [List.head?_cons, ne_eq, Option.some.injEq, Nat.digitChar_eq_zero]
      omega
    · rw [Nat.toDigits_of_base_le (by decide) (by omega), head?_toDigits_append]
      exact ih (n / 10) (by omega) (by omega)

/-- A number is printed without a superfluous zero. -/
theorem toDigits_plain (n : Nat) :
    ¬((Nat.toDigits 10 n).head? = some '0' ∧ 1 < (Nat.toDigits 10 n).length) := by
  rintro ⟨hz, hl⟩
  cases n with
  | zero => exact absurd hl (by decide)
  | succ n => exact head?_toDigits_ne (Nat.succ_pos n) hz

/-- Digits that write a number below `2^64` are all read. -/
theorem absorb_eq (h : Nat.ofDigitChars 10 digits s < Nat.pow 2 64) :
    absorb s digits = (Nat.ofDigitChars 10 digits s, []) := by
  induction digits generalizing s with
  | nil => rw [absorb, Nat.ofDigitChars_nil]
  | cons d digits ih =>
    rw [Nat.ofDigitChars_cons] at h ⊢
    have hl := le_ofDigitChars digits (10 * s + (d.toNat - '0'.toNat))
    have hg : 10 * s + (d.toNat - '0'.toNat) < Nat.pow 2 64 := Nat.lt_of_le_of_lt hl h
    rw [absorb, if_pos hg, ih h]

/-- Where all digits are read, the number they write is what was read, and it is below
`2^64`. -/
theorem absorb_of_all (hs : s < Nat.pow 2 64) (h : (absorb s digits).2 = []) :
    (absorb s digits).1 = Nat.ofDigitChars 10 digits s ∧ (absorb s digits).1 < Nat.pow 2 64 := by
  induction digits generalizing s with
  | nil =>
    rw [Nat.ofDigitChars_nil]
    exact ⟨rfl, hs⟩
  | cons d digits ih =>
    rw [absorb] at h ⊢
    split at h
    · rename_i hg
      rw [if_pos hg, Nat.ofDigitChars_cons]
      exact ih hg h
    · cases h

/-- Behind a number stands nothing that could continue it. -/
def Stops (rest : List Char) : Prop :=
  ∀ c ∈ rest.head?, c.isDigit = false ∧ c ≠ '.' ∧ c ≠ 'e' ∧ c ≠ 'E'

/-- The digits at the front of a text are all taken, and nothing else is. -/
theorem span_digits (hd : ∀ c ∈ digits, c.isDigit = true)
    (hr : ∀ c ∈ rest.head?, c.isDigit = false) :
    (digits ++ rest).takeWhile Char.isDigit = digits ∧
      (digits ++ rest).dropWhile Char.isDigit = rest := by
  rw [List.takeWhile_append_of_pos hd, List.dropWhile_append_of_pos hd]
  cases rest with
  | nil => simp
  | cons c rest => simp [hr c rfl]

/-- The digits of a number are read as the whole part. -/
theorem scanWhole_toDigits (n : Nat) (hr : Stops rest) :
    scanWhole (Nat.toDigits 10 n ++ rest) = some (Nat.toDigits 10 n, rest) := by
  have hd : ∀ c ∈ Nat.toDigits 10 n, c.isDigit = true := fun c hm =>
    Nat.isDigit_of_mem_toDigits (by decide) (Nat.le_refl 10) hm
  obtain ⟨ht, hw⟩ := span_digits hd fun c hm => (hr c hm).1
  rw [scanWhole, ht, hw, if_neg]
  rintro (hn | hz)
  · exact Nat.toDigits_ne_nil hn
  · exact toDigits_plain n hz

/-- Where nothing continues a number there is no fraction. -/
theorem scanFraction_of_stops (hr : Stops rest) : scanFraction rest = some ([], rest) := by
  unfold scanFraction
  split
  · exact absurd rfl (hr '.' rfl).2.1
  · rfl

/-- Where nothing continues a number there is no exponent. -/
theorem scanExponent_of_stops (hr : Stops rest) : scanExponent rest = some (none, rest) := by
  cases rest with
  | nil => rfl
  | cons c rest =>
    obtain ⟨_, _, he, hE⟩ := hr c rfl
    rw [scanExponent, if_neg]
    rintro (hc | hc)
    · exact he hc
    · exact hE hc

/-- A number is printed without a sign. -/
theorem scanMinus_toDigits (n : Nat) (rest : List Char) :
    scanMinus (Nat.toDigits 10 n ++ rest) = (false, Nat.toDigits 10 n ++ rest) := by
  unfold scanMinus
  split
  · rename_i tail ht
    have hh := congrArg List.head? ht
    rw [head?_toDigits_append] at hh
    have hd := Nat.isDigit_of_mem_toDigits (by decide) (Nat.le_refl 10)
      (List.mem_of_mem_head? hh)
    exact absurd hd (by decide)
  · rfl

/-- A sign and the digits of a number are a literal. -/
theorem scan_of_minus {minus : Bool}
    (hm : scanMinus text = (minus, Nat.toDigits 10 n ++ rest)) (hr : Stops rest) :
    scan text = some (⟨minus, Nat.toDigits 10 n, [], none⟩, rest) := by
  simp only [scan, hm, scanWhole_toDigits n hr, scanFraction_of_stops hr,
    scanExponent_of_stops hr]

/-- The digits of a number below `2^64` stand for it. -/
theorem number_toDigits (h : n < Nat.pow 2 64) :
    (Literal.mk false (Nat.toDigits 10 n) [] none).number = .natural n := by
  have ha : absorb 0 (Nat.toDigits 10 n) = (n, []) := by
    rw [absorb_eq (by rwa [Nat.ofDigitChars_ten_toDigits]), Nat.ofDigitChars_ten_toDigits]
  simp [number, ha]

/-- The digits of a number below `2^64` behind a minus sign stand for its opposite. -/
theorem number_minus_toDigits (h : n < Nat.pow 2 64) :
    (Literal.mk true (Nat.toDigits 10 n) [] none).number = .minus n := by
  have ha : absorb 0 (Nat.toDigits 10 n) = (n, []) := by
    rw [absorb_eq (by rwa [Nat.ofDigitChars_ten_toDigits]), Nat.ofDigitChars_ten_toDigits]
  simp [number, ha, Number.minus]

/-- Only digits read in full, with nothing else around them, stand for a natural
number. -/
theorem number_eq_natural {l : Literal} (h : l.number = .natural n) :
    l = ⟨false, l.whole, [], none⟩ ∧ absorb 0 l.whole = (n, []) := by
  have hr : ∀ tooLarge, realOrTooLarge tooLarge ≠ .natural n := by
    intro tooLarge
    cases tooLarge <;> simp [realOrTooLarge]
  rcases l with ⟨minus, whole, fraction, exponent⟩
  unfold number at h
  cases exponent with
  | some exponent =>
    dsimp only at h
    split at h
    · exact absurd h (hr _)
    · exact absurd h (hr _)
  | none =>
    dsimp only at h
    split at h
    · rename_i hw
      cases minus with
      | false => exact ⟨by rw [hw.1], Prod.ext (Number.natural.inj h) hw.2⟩
      | true =>
        rw [if_pos rfl] at h
        split at h <;> cases h
    · exact absurd h (hr _)

/-- What is read as the whole part are digits without a superfluous zero. -/
theorem of_scanWhole (h : scanWhole text = some (digits, rest)) :
    text = digits ++ rest ∧ digits ≠ [] ∧ (∀ c ∈ digits, c.isDigit = true) ∧
      ¬(digits.head? = some '0' ∧ 1 < digits.length) := by
  rw [scanWhole] at h
  split at h
  · cases h
  · rename_i hn
    cases h
    rw [not_or] at hn
    exact ⟨List.takeWhile_append_dropWhile.symm, hn.1,
      List.all_eq_true.mp List.all_takeWhile, hn.2⟩

/-- Where no fraction was read nothing was. -/
theorem of_scanFraction (h : scanFraction text = some ([], rest)) : text = rest := by
  unfold scanFraction at h
  split at h
  · rw [scanDigits] at h
    split at h
    · cases h
    · rename_i hn
      exact absurd (congrArg Prod.fst (Option.some.inj h)) hn
  · exact congrArg Prod.snd (Option.some.inj h)

/-- Where no exponent was read nothing was. -/
theorem of_scanExponent (h : scanExponent text = some (none, rest)) : text = rest := by
  cases text with
  | nil => exact congrArg Prod.snd (Option.some.inj h)
  | cons mark tail =>
    rw [scanExponent] at h
    split at h
    · dsimp only at h
      split at h
      · cases h
      · cases h
    · exact congrArg Prod.snd (Option.some.inj h)

/-- A literal that stands for a natural number is the number as it is printed. -/
theorem eq_toDigits_of_scan {l : Literal} (h : scan text = some (l, rest))
    (hn : l.number = .natural n) : text = Nat.toDigits 10 n ++ rest ∧ n < Nat.pow 2 64 := by
  obtain ⟨hl, ha⟩ := number_eq_natural hn
  have hall : (absorb 0 l.whole).2 = [] := congrArg Prod.snd ha
  obtain ⟨hv, hb⟩ := absorb_of_all (by decide) hall
  rw [ha] at hv hb
  dsimp only at hv
  rw [scan] at h
  split at h
  · cases h
  · rename_i whole afterWhole hw
    split at h
    · cases h
    · rename_i fraction afterFraction hf
      split at h
      · cases h
      · rename_i exponent afterExponent he
        rw [hl] at h
        simp only [Option.some.injEq, Prod.mk.injEq, Literal.mk.injEq] at h
        obtain ⟨⟨hm, hwhole, hfraction, hexponent⟩, hrest⟩ := h
        subst hfraction hexponent
        obtain ⟨ht, hne, hd, hz⟩ := of_scanWhole hw
        have hx : (scanMinus text).2 = text := by
          unfold scanMinus at hm ⊢
          split
          · cases hm
          · rfl
        refine ⟨?_, hb⟩
        rw [← hx, ht, of_scanFraction hf, of_scanExponent he, hrest, hv, ← hwhole,
          toDigits_ofDigitChars hne hd hz]

end Literal

end Chip8.Json
