import Chip8.Text.Record

/-!
# The display surface

A monochrome surface of 64 columns and 32 rows. Each row is a bit vector in
which column `x` is bit `x`, so a pixel is read as a bit and the surface is
determined by its pixels. Cells are only ever inverted, one at a time and with
both coordinates wrapped.
-/

namespace Chip8

/-- The 32 rows of the display, from top to bottom. -/
structure Framebuffer where
  /-- Row `y`, with column `x` at bit `x`. -/
  rows : Vector (BitVec 64) 32
  deriving DecidableEq

namespace Framebuffer

/-- The surface with no lit cell. -/
def blank : Framebuffer := ⟨Vector.replicate 32 0⟩

/-- Whether a cell is lit; cells outside the surface are not. -/
def pixel (f : Framebuffer) (x y : Nat) : Bool :=
  if h : y < 32 then f.rows[y].getLsbD x else false

/-- Invert one cell, wrapping both coordinates. The answer says whether the
cell was lit before, that is, whether it has been turned off. -/
def flip (f : Framebuffer) (x y : Nat) : Bool × Framebuffer :=
  have hy : y % 32 < 32 := Nat.mod_lt y (by decide)
  let row := f.rows[y % 32]
  (row.getLsbD (x % 64), ⟨f.rows.set (y % 32) (row ^^^ BitVec.twoPow 64 (x % 64)) hy⟩)

/-- Invert cells in order. The answer says whether any of them was lit when
its turn came. -/
def flipAll : List (Nat × Nat) → Framebuffer → Bool × Framebuffer
  | [], f => (false, f)
  | (x, y) :: cells, f =>
    let first := f.flip x y
    let rest := flipAll cells first.2
    (first.1 || rest.1, rest.2)

/-- The columns of a row that are lit. -/
def rowLit (row : BitVec 64) : Nat := (List.range 64).countP row.getLsbD

/-- The number of lit cells. -/
def litCount (f : Framebuffer) : Nat := (f.rows.toList.map rowLit).foldr (· + ·) 0

/-- One line of the text dump: a mark per column and a line end. -/
def lineText (f : Framebuffer) (y : Nat) : List Char :=
  (List.range 64).map (fun x => if f.pixel x y then '#' else '.') ++ ['\n']

/-- The text dump, one line per row. -/
def toText (f : Framebuffer) : String :=
  String.ofList ((List.range 32).flatMap f.lineText)

/-- The text that shows a surface to a person. -/
def shown (f : Framebuffer) : String :=
  Text.record "Framebuffer" [("lit", toString f.litCount)]

/-- A cell outside the surface is unlit. -/
theorem pixel_outside (f : Framebuffer) {x y : Nat} (h : 64 ≤ x ∨ 32 ≤ y) :
    f.pixel x y = false := by
  unfold pixel
  split
  · rename_i hy
    exact BitVec.getLsbD_of_ge _ _ (by omega)
  · rfl

/-- No cell of the blank surface is lit. -/
@[simp]
theorem pixel_blank (x y : Nat) : blank.pixel x y = false := by
  unfold pixel blank
  split
  · simp
  · rfl

/-- The answer of an inversion is the wrapped cell as it was. -/
@[simp]
theorem flip_fst (f : Framebuffer) (x y : Nat) :
    (f.flip x y).1 = f.pixel (x % 64) (y % 32) := by
  have hy : y % 32 < 32 := Nat.mod_lt y (by decide)
  simp only [flip, pixel, hy, dif_pos]

/-- An inversion changes the wrapped cell and no other. -/
theorem pixel_flip (f : Framebuffer) (x y px py : Nat) :
    (f.flip x y).2.pixel px py =
      (f.pixel px py ^^ decide (px = x % 64 ∧ py = y % 32)) := by
  unfold flip pixel
  by_cases hp : py < 32
  · simp only [hp, dif_pos, Vector.getElem_set]
    by_cases hy : y % 32 = py
    · subst hy
      have hx : x % 64 < 64 := Nat.mod_lt x (by decide)
      simp only [if_true, BitVec.getLsbD_xor, BitVec.getLsbD_twoPow, hx, decide_true,
        Bool.true_and, and_true]
      simp only [eq_comm]
    · have hn : ¬(px = x % 64 ∧ py = y % 32) := by omega
      simp only [hy, if_false, hn, decide_false, Bool.xor_false]
  · have hn : ¬(px = x % 64 ∧ py = y % 32) := by omega
    simp only [hp, dif_neg, not_false_eq_true, hn, decide_false, Bool.xor_false]

/-- Two surfaces with the same pixels are the same surface. -/
theorem ext_pixel {f g : Framebuffer} (h : ∀ x y, f.pixel x y = g.pixel x y) : f = g := by
  rcases f with ⟨frows⟩
  rcases g with ⟨grows⟩
  congr 1
  apply Vector.ext
  intro y hy
  apply BitVec.eq_of_getLsbD_eq
  intro x _hx
  have hxy := h x y
  simpa only [pixel, hy, dif_pos] using hxy

end Framebuffer

end Chip8
