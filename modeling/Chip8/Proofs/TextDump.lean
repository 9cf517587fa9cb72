import Chip8.Proofs.LitCells

/-!
# The text dump

The dump of a surface is written line by line, and a line has a mark for each of its columns
and an end. So the place of a cell in the text is told by its position, the text determines
the surface, and it has as many marks of lit cells as there are lit cells.
-/

namespace Chip8.Framebuffer

variable {f g : Framebuffer} {x y n : Nat}

/-- A line is a column longer than a row. -/
theorem length_lineText (f : Framebuffer) (y : Nat) : (f.lineText y).length = 65 := by
  rw [lineText, List.length_append, List.length_map, List.length_range, List.length_singleton]

/-- A line marks the cells of its row in their order. -/
theorem getElem?_lineText (f : Framebuffer) (y : Nat) (hx : x < 64) :
    (f.lineText y)[x]? = some (if f.pixel x y then '#' else '.') := by
  have hl : x < ((List.range 64).map fun x => if f.pixel x y then '#' else '.').length := by
    rw [List.length_map, List.length_range]
    exact hx
  rw [lineText, List.getElem?_append_left hl, List.getElem?_map, List.getElem?_range hx,
    Option.map_some]

/-- Behind the cells of its row a line ends. -/
theorem getElem?_lineText_end (f : Framebuffer) (y : Nat) : (f.lineText y)[64]? = some '\n' := by
  rw [lineText, List.getElem?_append_right, List.length_map, List.length_range]
  · rfl
  · rw [List.length_map, List.length_range]

/-- A line has as many marks of lit cells as its row has lit cells. -/
theorem count_lineText (f : Framebuffer) (y : Nat) :
    (f.lineText y).count '#' = (List.range 64).countP fun x => f.pixel x y := by
  have hn : List.count '#' ['\n'] = 0 := by decide
  rw [lineText, List.count_append, hn, Nat.add_zero, List.count, List.countP_map]
  refine List.countP_congr fun x _ => ?_
  rw [Function.comp_apply]
  cases f.pixel x y with
  | true => decide
  | false => decide

/-- The lines of the first rows, one after the other. -/
def linesText (f : Framebuffer) (n : Nat) : List Char := (List.range n).flatMap f.lineText

/-- The line of one more row is written behind the others. -/
theorem linesText_succ (f : Framebuffer) (n : Nat) :
    f.linesText (n + 1) = f.linesText n ++ f.lineText n := by
  rw [linesText, linesText, List.range_succ, List.flatMap_append, List.flatMap_singleton]

/-- The dump consists of the lines of all rows. -/
theorem toList_toText (f : Framebuffer) : f.toText.toList = f.linesText 32 :=
  String.toList_ofList

/-- All lines have the same length. -/
theorem length_linesText (f : Framebuffer) (n : Nat) : (f.linesText n).length = 65 * n := by
  induction n with
  | zero => rfl
  | succ n ih =>
    rw [linesText_succ, List.length_append, ih, length_lineText]
    omega

/-- The line of a row begins where the lines of the rows above it end, however many rows
there are below it. -/
theorem getElem?_linesText (f : Framebuffer) (hy : y < n) (hx : x < 65) :
    (f.linesText n)[65 * y + x]? = (f.lineText y)[x]? := by
  induction n with
  | zero => exact absurd hy (Nat.not_lt_zero y)
  | succ n ih =>
    have hl := f.length_linesText n
    rw [linesText_succ]
    by_cases hn : y < n
    · rw [List.getElem?_append_left (by omega), ih hn]
    · -- This is the line that has been written last.
      have he : y = n := by omega
      have hp : 65 * y + x - 65 * n = x := by omega
      rw [List.getElem?_append_right (by omega), hl, hp, he]

/-- The lines have as many marks of lit cells as their rows have lit cells. -/
theorem count_linesText (f : Framebuffer) (n : Nat) : (f.linesText n).count '#' =
    ((List.range n).map fun y =>
      (List.range 64).countP fun x => f.pixel x y).foldr (· + ·) 0 := by
  rw [linesText, List.count_flatMap]
  exact congrArg (List.foldr (· + ·) 0) (List.map_congr_left fun y _ => f.count_lineText y)

/-- A text shows a surface, cell by cell. -/
structure Dumps (f : Framebuffer) (text : String) : Prop where
  /-- It has a line for each row, which is a character longer than the row. -/
  length : text.length = 32 * 65
  /-- The mark of a cell stands behind the lines above it and the marks on its left. -/
  cell : ∀ x < 64, ∀ y < 32,
    text.toList[65 * y + x]? = some (if f.pixel x y then '#' else '.')
  /-- A line ends behind the marks of its row. -/
  lineEnd : ∀ y < 32, text.toList[65 * y + 64]? = some '\n'

/-- The dump of a surface shows it. -/
theorem dumps_toText (f : Framebuffer) : f.Dumps f.toText where
  length := by rw [← String.length_toList, toList_toText, length_linesText]
  cell := by
    intro x hx y hy
    rw [toList_toText, f.getElem?_linesText hy (by omega), f.getElem?_lineText y hx]
  lineEnd := by
    intro y hy
    rw [toList_toText, f.getElem?_linesText hy (by decide), f.getElem?_lineText_end y]

/-- A mark tells whether its cell is lit. -/
theorem mark_inj {a b : Bool} (h : (if a then '#' else '.') = if b then '#' else '.') :
    a = b := by
  revert h
  cases a with
  | _ => cases b with
    | _ => decide

/-- A text shows at most one surface. -/
theorem Dumps.unique {text : String} (hf : f.Dumps text) (hg : g.Dumps text) : f = g := by
  apply eq_iff_pixel.mpr
  intro x hx y hy
  have hm := hf.cell x hx y hy
  rw [hg.cell x hx y hy] at hm
  exact (mark_inj (Option.some.inj hm)).symm

/-- A dump has as many marks of lit cells as there are lit cells. -/
theorem count_toText (f : Framebuffer) : f.toText.toList.count '#' = f.litCount := by
  rw [toList_toText, count_linesText, litCount, map_rowLit]

/-- The law of the text dump: it shows the surface cell by cell, so surfaces with the same dump
are the same, and its marks of lit cells are as many as the lit cells. -/
theorem text_dump_law (f : Framebuffer) :
    f.Dumps f.toText ∧ (∀ g : Framebuffer, f.toText = g.toText ↔ f = g) ∧
      f.toText.toList.count '#' = f.litCount := by
  refine ⟨f.dumps_toText, ?_, f.count_toText⟩
  intro g
  constructor
  · intro h
    have hg : g.Dumps f.toText := h ▸ g.dumps_toText
    exact f.dumps_toText.unique hg
  · rintro rfl
    rfl

/-- Three flips of the blank surface light the ends of the first row and, because the last one
wraps around, a cell of the last row. They are marked where their lines are, and not where the
columns and rows of the surface are exchanged. -/
theorem text_dump_law_of_three_cells :
    let f := (blank.flipAll [(0, 0), (63, 0), (66, 63)]).2
    f.toText.length = 2080 ∧ f.toText.toList[0]? = some '#' ∧
      f.toText.toList[63]? = some '#' ∧ f.toText.toList[64]? = some '\n' ∧
      f.toText.toList[65 * 31 + 2]? = some '#' ∧ f.toText.toList[65 * 2 + 31]? = some '.' ∧
      f.toText.toList.count '#' = 3 ∧ f.toText ≠ blank.toText := by
  intro f
  obtain ⟨hd, hinj, hcount⟩ := text_dump_law f
  have hp : ∀ x y, f.pixel x y = decide ((x, y) ∈ [(0, 0), (63, 0), (2, 31)]) := by
    intro x y
    rw [pixel_flipAll_of_nodup blank (by decide), pixel_blank, Bool.false_xor]
    rfl
  have hc : f.litCount = 3 := by decide +kernel
  have hmark := fun x hx y hy => (hd.cell x hx y hy).trans (by rw [hp x y])
  refine ⟨hd.length, hmark 0 (by decide) 0 (by decide), hmark 63 (by decide) 0 (by decide),
    hd.lineEnd 0 (by decide), hmark 2 (by decide) 31 (by decide),
    hmark 31 (by decide) 2 (by decide), hcount.trans hc, ?_⟩
  intro he
  have hb := congrArg litCount ((hinj blank).mp he)
  rw [hc] at hb
  exact absurd hb (by decide)

end Chip8.Framebuffer
