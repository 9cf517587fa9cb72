/-!
# Memory

4096 bytes, all zero at first. Loads overlay them; nothing else writes them.
-/

namespace Chip8

/-- The number of bytes of memory. -/
def memorySize : Nat := 4096

/-- The address at which programs are loaded and started. -/
def programOrigin : UInt16 := 0x200

/-- The bytes of memory. -/
abbrev Memory := Vector UInt8 memorySize

namespace Memory

/-- Memory before any load. -/
def zero : Memory := Vector.replicate memorySize 0

/-- The byte at an address; past the end of memory there are zeros. -/
def byteAt (memory : Memory) (address : Nat) : UInt8 := memory[address]?.getD 0

/-- Write bytes from an address on; bytes past the end are dropped. -/
def overlay (memory : Memory) : Nat → List UInt8 → Memory
  | _, [] => memory
  | address, byte :: bytes =>
    overlay (memory.setIfInBounds address byte) (address + 1) bytes

/-- An overlay shows its own bytes where it has any. -/
theorem getElem_overlay (memory : Memory) (address : Nat) (bytes : List UInt8)
    (a : Nat) (ha : a < memorySize) :
    (memory.overlay address bytes)[a] =
      if address ≤ a then bytes[a - address]?.getD memory[a] else memory[a] := by
  induction bytes generalizing address memory with
  | nil => simp [overlay]
  | cons byte bytes ih =>
    rw [overlay, ih]
    by_cases hle : address ≤ a
    · by_cases he : address = a
      · subst he
        have hn : ¬address + 1 ≤ address := by omega
        simp [hn]
      · have hs : address + 1 ≤ a := by omega
        have hd : a - address = a - (address + 1) + 1 := by omega
        simp [hle, hs, hd, he]
    · have hs : ¬address + 1 ≤ a := by omega
      have he : address ≠ a := by omega
      simp [hle, hs, he]

end Memory

end Chip8
