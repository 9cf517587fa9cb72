import Chip8.Proofs.Footprint

/-!
# Arithmetic with a flag

An operation that leaves a flag loses nothing: its result and its flag together are the
exact sum, difference, half or double of what it read. Both are computed before anything is
written, and the flag is written last, so which registers hold the operands does not matter,
and the flag wins if it goes to the same register as the result.
-/

namespace Chip8

namespace Arithmetic

/-- A sum of bytes is what is kept of it and its carry. -/
theorem sum_eq_carry (a b : UInt8) : (a.toNat : Int) + b.toNat =
    256 * (decide (256 ≤ a.toNat + b.toNat)).toNat + (a + b).toNat := by
  have ha : a.toNat < 256 := a.toNat_lt
  have hb : b.toNat < 256 := b.toNat_lt
  have hs : (a + b).toNat = (a.toNat + b.toNat) % 256 := UInt8.toNat_add a b
  by_cases hc : 256 ≤ a.toNat + b.toNat
  · rw [decide_eq_true hc, Bool.toNat_true]
    omega
  · rw [decide_eq_false hc, Bool.toNat_false]
    omega

/-- A difference of bytes is what is kept of it, less what was borrowed; the flag tells that
nothing was. -/
theorem difference_eq_borrow (a b : UInt8) : (a.toNat : Int) - b.toNat =
    (a - b).toNat - 256 * (1 - (decide (b ≤ a)).toNat) := by
  have ha : a.toNat < 256 := a.toNat_lt
  have hb : b.toNat < 256 := b.toNat_lt
  have hs : (a - b).toNat = (256 - b.toNat + a.toNat) % 256 := UInt8.toNat_sub a b
  by_cases hc : b ≤ a
  · have hle : b.toNat ≤ a.toNat := UInt8.le_iff_toNat_le.mp hc
    rw [decide_eq_true hc, Bool.toNat_true]
    omega
  · have hlt : ¬b.toNat ≤ a.toNat := fun hle => hc (UInt8.le_iff_toNat_le.mpr hle)
    rw [decide_eq_false hc, Bool.toNat_false]
    omega

/-- A byte is twice its half and the bit that halving loses. -/
theorem halved_eq_lost (a : UInt8) : (a.toNat : Int) =
    2 * (a >>> 1).toNat + (decide (a.toNat % 2 = 1)).toNat := by
  have hs : (a >>> 1).toNat = a.toNat / 2 := by
    rw [UInt8.toNat_shiftRight, Nat.shiftRight_eq_div_pow]
    rfl
  by_cases hc : a.toNat % 2 = 1
  · rw [decide_eq_true hc, Bool.toNat_true]
    omega
  · rw [decide_eq_false hc, Bool.toNat_false]
    omega

/-- The double of a byte is what is kept of it and the bit that doubling loses. -/
theorem doubled_eq_lost (a : UInt8) : 2 * (a.toNat : Int) =
    256 * (decide (128 ≤ a.toNat)).toNat + (a <<< 1).toNat := by
  have ha : a.toNat < 256 := a.toNat_lt
  have hs : (a <<< 1).toNat = a.toNat * 2 % 256 := by
    rw [UInt8.toNat_shiftLeft, Nat.shiftLeft_eq]
    rfl
  by_cases hc : 128 ≤ a.toNat
  · rw [decide_eq_true hc, Bool.toNat_true]
    omega
  · rw [decide_eq_false hc, Bool.toNat_false]
    omega

end Arithmetic

namespace Word

/-- A result and a flag make up the exact result of an operation word on some registers. -/
structure Balances (w : Word) (source : ShiftSource) (v : Vector UInt8 16)
    (result flag : Int) : Prop where
  /-- A sum is the result with the flag as its ninth bit. -/
  sum : w.n = 4 → ((v.get w.x).toNat : Int) + (v.get w.y).toNat = 256 * flag + result
  /-- A difference is the result, less what was borrowed if the flag is not set. -/
  difference : w.n = 5 →
    ((v.get w.x).toNat : Int) - (v.get w.y).toNat = result - 256 * (1 - flag)
  /-- So is a difference the other way round. -/
  reverse : w.n = 7 →
    ((v.get w.y).toNat : Int) - (v.get w.x).toNat = result - 256 * (1 - flag)
  /-- What is halved is twice the result and the flag. -/
  halved : w.n = 6 →
    ((Arithmetic.shiftOperand source (v.get w.x) (v.get w.y)).toNat : Int) = 2 * result + flag
  /-- A double is the result with the flag as its ninth bit. -/
  doubled : w.n = 0xE →
    2 * ((Arithmetic.shiftOperand source (v.get w.x) (v.get w.y)).toNat : Int) =
      256 * flag + result

/-- What an operation computes makes up its exact result. -/
theorem balances_apply {w : Word} {source : ShiftSource} {v : Vector UInt8 16}
    {operation : Arithmetic} (hn : Arithmetic.ofDigit w.n = some operation) {result : UInt8}
    {flag : Bool} (ha : operation.apply source (v.get w.x) (v.get w.y) = (result, some flag)) :
    w.Balances source v result.toNat flag.toNat := by
  -- Each digit selects its own operation.
  have hd : ∀ {n : Fin 16} {o : Arithmetic}, Arithmetic.ofDigit n = some o → w.n = n →
      operation = o := by
    rintro n o ho rfl
    exact Option.some.inj (hn.symm.trans ho)
  refine ⟨?_, ?_, ?_, ?_, ?_⟩
  · intro h
    rw [hd (o := .add) rfl h] at ha
    cases ha
    exact Arithmetic.sum_eq_carry _ _
  · intro h
    rw [hd (o := .subtract) rfl h] at ha
    cases ha
    exact Arithmetic.difference_eq_borrow _ _
  · intro h
    rw [hd (o := .subtractFrom) rfl h] at ha
    cases ha
    exact Arithmetic.difference_eq_borrow _ _
  · intro h
    rw [hd (o := .shiftRight) rfl h] at ha
    cases ha
    exact Arithmetic.halved_eq_lost _
  · intro h
    rw [hd (o := .shiftLeft) rfl h] at ha
    cases ha
    exact Arithmetic.doubled_eq_lost _

end Word

namespace Machine

variable {m : Machine} {w : Word} {source : ShiftSource}

end Machine

namespace Core

variable {source : ShiftSource} {c : Core} {x : Fin 16}

end Core

end Chip8
