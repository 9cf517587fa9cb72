/-!
# The call stack

Sixteen slots and a depth. Slots above the depth keep what was last written to
them; the live part below the depth is what calls and returns act on: a push
appends to it, a pop takes its last entry away.
-/

namespace Chip8

/-- The call stack with its stale slots. -/
structure CallStack where
  /-- All slots, live and stale. -/
  slots : Vector UInt16 16
  /-- How many slots are live. -/
  depth : Nat
  /-- No more slots are live than there are. -/
  depth_le : depth ≤ 16
  deriving DecidableEq

namespace CallStack

/-- The stack of a machine that has called nothing. -/
def empty : CallStack := ⟨Vector.replicate 16 0, 0, by decide⟩

/-- Write an address above the live slots, unless all of them are live. -/
def push? (s : CallStack) (address : UInt16) : Option CallStack :=
  if h : s.depth < 16 then some ⟨s.slots.set s.depth address h, s.depth + 1, h⟩ else none

/-- Take the topmost live address; its slot keeps the value. -/
def pop? (s : CallStack) : Option (UInt16 × CallStack) :=
  have hd := s.depth_le
  if h : s.depth = 0 then none
  else some (s.slots[s.depth - 1], ⟨s.slots, s.depth - 1, by omega⟩)

/-- The live addresses, innermost call last. -/
def live (s : CallStack) : List UInt16 := s.slots.toList.take s.depth

/-- There is one live address for each unit of depth. -/
@[simp]
theorem length_live (s : CallStack) : s.live.length = s.depth := by
  have hd := s.depth_le
  simp only [live, List.length_take, Vector.length_toList]
  omega

/-- A push succeeds exactly while a slot is free. -/
theorem push?_eq_none_iff (s : CallStack) (address : UInt16) :
    s.push? address = none ↔ s.depth = 16 := by
  have hd := s.depth_le
  unfold push?
  split
  · simp only [reduceCtorEq, false_iff]
    omega
  · simp only [true_iff]
    omega

/-- A pop succeeds exactly while a slot is live. -/
theorem pop?_eq_none_iff (s : CallStack) : s.pop? = none ↔ s.depth = 0 := by
  unfold pop?
  split
  · rename_i h
    simp only [h]
  · rename_i h
    simp only [reduceCtorEq, h]

/-- A push appends the address to the live part. -/
theorem live_push? {s t : CallStack} {address : UInt16} (h : s.push? address = some t) :
    t.live = s.live ++ [address] := by
  unfold push? at h
  split at h
  · rename_i hd
    cases h
    have hs : s.depth < s.slots.toList.length := by simpa using hd
    simp only [live, Vector.toList_set]
    rw [List.take_add_one, List.take_set_of_le (Nat.le_refl _)]
    simp only [List.getElem?_set_self hs, Option.toList_some]
  · cases h

/-- A pop takes the last address of the live part away. -/
theorem live_pop? {s t : CallStack} {address : UInt16} (h : s.pop? = some (address, t)) :
    s.live = t.live ++ [address] := by
  have hd := s.depth_le
  unfold pop? at h
  split at h
  · cases h
  · rename_i h0
    cases h
    have he : s.depth = s.depth - 1 + 1 := by omega
    simp only [live]
    conv => lhs; rw [he]
    rw [List.take_add_one]
    have hi : s.depth - 1 < s.slots.toList.length := by
      simp only [Vector.length_toList]
      omega
    simp only [List.getElem?_eq_getElem hi, Vector.getElem_toList, Option.toList_some]

/-- A push writes the slot above the live ones and no other. -/
theorem slots_push? {s t : CallStack} {address : UInt16} (h : s.push? address = some t) :
    t.depth = s.depth + 1 ∧
      ∀ j : Nat, t.slots[j]? = if j = s.depth then some address else s.slots[j]? := by
  unfold push? at h
  split at h
  · cases h
    refine ⟨rfl, ?_⟩
    intro j
    simp only [Vector.getElem?_set, eq_comm]
  · cases h

/-- A pop reads the topmost live slot and writes none. -/
theorem slots_pop? {s t : CallStack} {address : UInt16} (h : s.pop? = some (address, t)) :
    s.depth = t.depth + 1 ∧ t.slots = s.slots ∧ s.slots[t.depth]? = some address := by
  have hs := s.depth_le
  unfold pop? at h
  split at h
  · cases h
  · rename_i h0
    cases h
    have hd : s.depth = s.depth - 1 + 1 := by omega
    have hl : s.depth - 1 < 16 := by omega
    exact ⟨hd, rfl, Vector.getElem?_eq_getElem hl⟩

end CallStack

end Chip8
