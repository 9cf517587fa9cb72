import Chip8.Framebuffer
import Mathlib.Data.List.Nodup

/-!
# Flips

What a list of flips leaves of a surface is told cell by cell: a cell has changed exactly
if an odd number of the flips were on it, after wrapping around. If no two flips are on
one cell, each of them finds its cell as it was before the first one.
-/

namespace Chip8.Framebuffer

/-- The cell of the surface that a flip at a position is on. -/
def wrap (cell : Nat × Nat) : Nat × Nat := (cell.1 % 64, cell.2 % 32)

/-- Whether the cell of a flip is lit. -/
def lit (f : Framebuffer) (cell : Nat × Nat) : Bool := f.pixel (wrap cell).1 (wrap cell).2

/-- The position of a flip wraps around into the surface. -/
theorem wrap_lt (cell : Nat × Nat) : (wrap cell).1 < 64 ∧ (wrap cell).2 < 32 :=
  ⟨Nat.mod_lt cell.1 (by decide), Nat.mod_lt cell.2 (by decide)⟩

/-- A flip tells whether its cell was lit. -/
theorem flip_fst_eq_lit (f : Framebuffer) (x y : Nat) : (f.flip x y).1 = f.lit (x, y) :=
  f.flip_fst x y

/-- A flip changes the pixel of its own cell and no other one. -/
theorem pixel_flip_wrap (f : Framebuffer) (x y px py : Nat) :
    (f.flip x y).2.pixel px py = (f.pixel px py ^^ decide (wrap (x, y) = (px, py))) := by
  have he : (px = x % 64 ∧ py = y % 32) ↔ wrap (x, y) = (px, py) := by
    rw [wrap, Prod.mk.injEq, eq_comm, @eq_comm _ py]
  rw [pixel_flip, decide_eq_decide.mpr he]

/-- A flip on another cell leaves a cell as it is. -/
theorem lit_flip_of_ne (f : Framebuffer) {x y : Nat} {cell : Nat × Nat}
    (h : wrap (x, y) ≠ wrap cell) : (f.flip x y).2.lit cell = f.lit cell := by
  rw [lit, pixel_flip_wrap, decide_eq_false h, Bool.xor_false, lit]

/-- After a list of flips, a pixel has changed exactly if an odd number of them were on
it. -/
theorem pixel_flipAll (f : Framebuffer) (cells : List (Nat × Nat)) (px py : Nat) :
    (f.flipAll cells).2.pixel px py =
      (f.pixel px py ^^ decide ((cells.map wrap).count (px, py) % 2 = 1)) := by
  induction cells generalizing f with
  | nil => rw [flipAll, List.map_nil, List.count_nil, Nat.zero_mod, decide_eq_false (by decide),
      Bool.xor_false]
  | cons cell cells ih =>
    rcases cell with ⟨x, y⟩
    rw [flipAll]
    dsimp only
    rw [ih, pixel_flip_wrap, Bool.xor_assoc, List.map_cons, List.count_cons]
    congr 1
    by_cases hc : wrap (x, y) = (px, py)
    · -- This flip is on the cell, so the parity of the others is inverted.
      have hb : (wrap (x, y) == (px, py)) = true := beq_iff_eq.mpr hc
      rw [decide_eq_true hc, hb, if_pos rfl, Bool.true_xor, ← decide_not]
      apply decide_eq_decide.mpr
      omega
    · have hb : ¬(wrap (x, y) == (px, py)) = true := fun he => hc (beq_iff_eq.mp he)
      rw [decide_eq_false hc, if_neg hb, Bool.false_xor, Nat.add_zero]

/-- If no two flips are on one cell, a pixel has changed exactly if one of them was on
it. -/
theorem pixel_flipAll_of_nodup (f : Framebuffer) {cells : List (Nat × Nat)}
    (h : (cells.map wrap).Nodup) (px py : Nat) :
    (f.flipAll cells).2.pixel px py =
      (f.pixel px py ^^ decide ((px, py) ∈ cells.map wrap)) := by
  have hc : (cells.map wrap).count (px, py) % 2 = 1 ↔ (px, py) ∈ cells.map wrap := by
    have hle := List.nodup_iff_count_le_one.mp h (px, py)
    rw [← List.count_pos_iff]
    omega
  rw [pixel_flipAll, decide_eq_decide.mpr hc]

/-- If no two flips are on one cell, they tell whether any of their cells was lit before
the first of them. -/
theorem flipAll_fst_iff (f : Framebuffer) {cells : List (Nat × Nat)}
    (h : (cells.map wrap).Nodup) :
    (f.flipAll cells).1 = true ↔ ∃ cell ∈ cells, f.lit cell = true := by
  induction cells generalizing f with
  | nil => simp [flipAll]
  | cons cell cells ih =>
    rcases cell with ⟨x, y⟩
    obtain ⟨hx, hn⟩ := List.nodup_cons.mp h
    have hrest : ∀ other ∈ cells, (f.flip x y).2.lit other = f.lit other := by
      intro other hm
      apply lit_flip_of_ne
      intro he
      exact hx (he ▸ List.mem_map_of_mem hm)
    have htail : (∃ other ∈ cells, (f.flip x y).2.lit other = true) ↔
        ∃ other ∈ cells, f.lit other = true :=
      exists_congr fun other => and_congr_right fun hm => by rw [hrest other hm]
    rw [flipAll]
    dsimp only
    rw [Bool.or_eq_true, ih _ hn, htail, flip_fst_eq_lit, List.exists_mem_cons_iff]

end Chip8.Framebuffer
