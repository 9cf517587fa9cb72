import Chip8.Proofs.Flips
import Mathlib.Algebra.BigOperators.Group.Finset.Piecewise
import Mathlib.Algebra.BigOperators.Group.Finset.Sigma
import Mathlib.Data.Finset.SymmDiff

/-!
# Lit cells

The lit cells of a surface are a finite set that determines the surface, and their number is
the lit count. A flip puts its cell into this set or takes it out, so the count goes up or
down by one. What a sequence of flips leaves depends on how often each cell is flipped, and
on nothing else.
-/

namespace Chip8.Framebuffer

variable {f g : Framebuffer} {cell : Nat × Nat}

/-- The cells of the surface. -/
def surface : Finset (Nat × Nat) := Finset.range 64 ×ˢ Finset.range 32

/-- A cell belongs to the surface if its column and its row do. -/
theorem mem_surface : cell ∈ surface ↔ cell.1 < 64 ∧ cell.2 < 32 := by
  rw [surface, Finset.mem_product, Finset.mem_range, Finset.mem_range]

/-- A sum over the surface is taken row by row. -/
theorem sum_surface (count : Nat × Nat → Nat) : ∑ cell ∈ surface, count cell =
    ((List.range 32).map fun y => ∑ x ∈ Finset.range 64, count (x, y)).foldr (· + ·) 0 := by
  rw [surface, Finset.sum_product_right]
  rfl

/-- The surface has 64 columns of 32 rows. -/
theorem card_surface : surface.card = 2048 := by
  rw [surface, Finset.card_product, Finset.card_range, Finset.card_range]

-- From here on the surface is known by these lemmas: its list of cells is too long to be
-- computed.
attribute [irreducible] surface

/-- The lit cells of a surface. -/
def litCells (f : Framebuffer) : Finset (Nat × Nat) :=
  surface.filter fun cell => f.pixel cell.1 cell.2 = true

/-- Only cells of the surface are lit. -/
theorem mem_litCells : cell ∈ f.litCells ↔ f.pixel cell.1 cell.2 = true := by
  rw [litCells, Finset.mem_filter, mem_surface, and_iff_right_iff_imp]
  intro hl
  by_contra hn
  rw [f.pixel_outside (by omega)] at hl
  cases hl

/-- The lit cells determine the surface. -/
theorem litCells_inj : f.litCells = g.litCells ↔ f = g := by
  constructor
  · intro h
    apply ext_pixel
    intro x y
    have hf : (x, y) ∈ f.litCells ↔ f.pixel x y = true := mem_litCells
    have hg : (x, y) ∈ g.litCells ↔ g.pixel x y = true := mem_litCells
    apply Bool.eq_iff_iff.mpr
    rw [← hf, ← hg, h]
  · rintro rfl
    rfl

/-- The lit columns of the rows are told by the pixels. -/
theorem map_rowLit (f : Framebuffer) : f.rows.toList.map rowLit =
    (List.range 32).map fun y => (List.range 64).countP fun x => f.pixel x y := by
  apply List.ext_getElem
  · rw [List.length_map, List.length_map, Vector.length_toList, List.length_range]
  · intro y hy _
    rw [List.length_map, Vector.length_toList] at hy
    rw [List.getElem_map, List.getElem_map, List.getElem_range, Vector.getElem_toList, rowLit]
    congr 1
    funext x
    rw [pixel, dif_pos hy]

/-- The lit count is the number of lit cells. -/
theorem card_litCells (f : Framebuffer) : f.litCells.card = f.litCount := by
  rw [litCount, map_rowLit, litCells, Finset.card_filter, sum_surface]
  refine congrArg (List.foldr (· + ·) 0) (List.map_congr_left fun y _ => ?_)
  rw [← Finset.card_filter, List.countP_eq_length_filter]
  show (List.filter (fun x => decide (f.pixel x y = true)) (List.range 64)).length = _
  simp only [Bool.decide_eq_true]

/-- No more cells are lit than there are. -/
theorem litCount_le (f : Framebuffer) : f.litCount ≤ 2048 := by
  rw [← card_litCells, ← card_surface]
  exact Finset.card_filter_le surface _

/-- What two finite sets do not have in common is counted with what they have in common. -/
theorem card_symmDiff_add_card_inter (s t : Finset (Nat × Nat)) :
    (symmDiff s t).card + 2 * (s ∩ t).card = s.card + t.card := by
  have hs := Finset.card_sdiff_add_card_inter s t
  have ht := Finset.card_sdiff_add_card_inter t s
  have hd : (symmDiff s t).card = (s \ t).card + (t \ s).card :=
    Finset.card_union_of_disjoint disjoint_sdiff_sdiff
  rw [Finset.inter_comm t s] at ht
  omega

/-- A cell is lit if the one that it wraps around to is among the lit ones. -/
theorem wrap_mem_litCells (f : Framebuffer) (cell : Nat × Nat) :
    wrap cell ∈ f.litCells ↔ f.lit cell = true := mem_litCells

/-- A flip moves its cell into the lit ones or out of them. -/
theorem litCells_flip (f : Framebuffer) (x y : Nat) :
    (f.flip x y).2.litCells = symmDiff f.litCells {wrap (x, y)} := by
  ext cell
  rw [mem_litCells, pixel_flip_wrap, Finset.mem_symmDiff, mem_litCells, Finset.mem_singleton,
    @eq_comm _ cell]
  cases f.pixel cell.1 cell.2 with
  | _ => simp

/-- A flip that finds its cell lit takes one from the lit count, and another one adds one
to it. -/
theorem litCount_flip (f : Framebuffer) (x y : Nat) :
    (f.flip x y).2.litCount + (if (f.flip x y).1 then 1 else 0) =
      f.litCount + (if (f.flip x y).1 then 0 else 1) := by
  have hc := card_symmDiff_add_card_inter f.litCells {wrap (x, y)}
  rw [← litCells_flip, card_litCells, card_litCells, Finset.card_singleton] at hc
  rw [flip_fst_eq_lit]
  cases hl : f.lit (x, y) with
  | true =>
    have hm : wrap (x, y) ∈ f.litCells := (f.wrap_mem_litCells (x, y)).mpr hl
    rw [Finset.inter_singleton_of_mem hm, Finset.card_singleton] at hc
    simp only [if_true]
    omega
  | false =>
    have hm : wrap (x, y) ∉ f.litCells := by
      rw [wrap_mem_litCells, hl]
      exact Bool.false_ne_true
    rw [Finset.inter_singleton_of_notMem hm, Finset.card_empty] at hc
    simp only [Bool.false_eq_true, if_false]
    omega

/-- Flips are made one list after the other. -/
theorem flipAll_append (f : Framebuffer) (cells others : List (Nat × Nat)) :
    (f.flipAll (cells ++ others)).2 = ((f.flipAll cells).2.flipAll others).2 := by
  induction cells generalizing f with
  | nil => rfl
  | cons cell cells ih =>
    rcases cell with ⟨x, y⟩
    rw [List.cons_append, flipAll, flipAll]
    exact ih (f.flip x y).2

/-- The order of flips does not matter. -/
theorem flipAll_perm (f : Framebuffer) {cells others : List (Nat × Nat)}
    (h : cells.Perm others) : (f.flipAll others).2 = (f.flipAll cells).2 := by
  apply ext_pixel
  intro x y
  rw [pixel_flipAll, pixel_flipAll, (h.map wrap).count_eq]

/-- Flips that are made twice leave nothing. -/
theorem flipAll_flipAll (f : Framebuffer) (cells : List (Nat × Nat)) :
    ((f.flipAll cells).2.flipAll cells).2 = f := by
  apply ext_pixel
  intro x y
  rw [pixel_flipAll, pixel_flipAll, Bool.xor_assoc, Bool.xor_self, Bool.xor_false]

/-- Surfaces are equal if their cells are. -/
theorem eq_iff_pixel : f = g ↔ ∀ x < 64, ∀ y < 32, f.pixel x y = g.pixel x y := by
  constructor
  · rintro rfl x _ y _
    rfl
  · intro h
    apply ext_pixel
    intro x y
    by_cases hs : x < 64 ∧ y < 32
    · exact h x hs.1 y hs.2
    · rw [f.pixel_outside (by omega), g.pixel_outside (by omega)]

/-- What a single flip tells and does to a surface. -/
structure Flipped (f : Framebuffer) (x y : Nat) (told : Bool) (g : Framebuffer) : Prop where
  /-- It tells whether its cell was lit, after both coordinates have wrapped around. -/
  told_eq : told = f.pixel (x % 64) (y % 32)
  /-- One cell less is lit if it was. -/
  darker : told = true → g.litCount + 1 = f.litCount
  /-- One cell more is lit if it was not. -/
  brighter : told = false → g.litCount = f.litCount + 1

/-- Every flip does this. -/
theorem flipped_flip (f : Framebuffer) (x y : Nat) :
    f.Flipped x y (f.flip x y).1 (f.flip x y).2 := by
  have hc := f.litCount_flip x y
  refine ⟨f.flip_fst x y, ?_, ?_⟩
  · intro ht
    rw [ht] at hc
    exact hc
  · intro ht
    rw [ht] at hc
    exact hc

/-- How the lit count of a surface goes with its cells. -/
structure Tallied (f : Framebuffer) : Prop where
  /-- It is the number of the cells that are lit. -/
  count : f.litCount = (surface.filter fun cell => f.pixel cell.1 cell.2 = true).card
  /-- It is at most the number of all cells. -/
  bound : f.litCount ≤ 2048
  /-- Outside the surface nothing is lit that it could have missed. -/
  outside : ∀ x y, 64 ≤ x ∨ 32 ≤ y → f.pixel x y = false

/-- The lit count of every surface does. -/
theorem tallied (f : Framebuffer) : f.Tallied :=
  ⟨f.card_litCells.symm, f.litCount_le, fun _ _ h => f.pixel_outside h⟩

/-- The flips on a cell can be counted by their positions. -/
theorem count_map_wrap (cells : List (Nat × Nat)) (px py : Nat) :
    (cells.map wrap).count (px, py) =
      cells.countP fun cell => cell.1 % 64 = px ∧ cell.2 % 32 = py := by
  rw [List.count, List.countP_map]
  congr 1
  funext cell
  apply Bool.eq_iff_iff.mpr
  rw [Function.comp_apply, beq_iff_eq, decide_eq_true_iff, wrap, Prod.mk.injEq]

/-- The law of flips: a sequence of them changes the cells that an odd number of them are on,
so their order does not matter and the same sequence again takes it back. Each of them tells
whether its cell was lit when its turn came, and the lit count goes down or up by one. The lit
count of a surface is always the number of its lit cells, and surfaces differ in their pixels
only. -/
theorem flip_sequence_law (f : Framebuffer) (cells : List (Nat × Nat)) :
    (∀ px < 64, ∀ py < 32, (f.flipAll cells).2.pixel px py =
      (f.pixel px py ^^
        decide ((cells.countP fun cell => cell.1 % 64 = px ∧ cell.2 % 32 = py) % 2 = 1))) ∧
    (∀ others, cells.Perm others → (f.flipAll others).2 = (f.flipAll cells).2) ∧
    ((f.flipAll cells).2.flipAll cells).2 = f ∧
    (∀ earlier x y later, cells = earlier ++ (x, y) :: later → ∃ told g,
      (f.flipAll earlier).2.flip x y = (told, g) ∧ (f.flipAll earlier).2.Flipped x y told g ∧
        (f.flipAll cells).2 = (g.flipAll later).2) ∧
    ∀ g : Framebuffer, g.Tallied ∧ (f = g ↔ ∀ x < 64, ∀ y < 32, f.pixel x y = g.pixel x y) := by
  refine ⟨?_, ?_, f.flipAll_flipAll cells, ?_, ?_⟩
  · intro px _ py _
    rw [pixel_flipAll, count_map_wrap]
  · intro others h
    exact f.flipAll_perm h
  · rintro earlier x y later rfl
    refine ⟨_, _, rfl, flipped_flip _ x y, ?_⟩
    rw [flipAll_append]
    rfl
  · intro g
    exact ⟨g.tallied, eq_iff_pixel⟩

/-- Of three flips of the blank surface two meet on a cell, because the first one wraps around.
They leave it unlit, the last one having found it lit, and one cell is lit in the end,
whichever of the flips comes first. -/
theorem flip_sequence_law_of_meeting_flips :
    let left := (blank.flipAll [(65, 34), (3, 4), (1, 2)]).2
    left.pixel 1 2 = false ∧ left.pixel 3 4 = true ∧
      (blank.flipAll [(1, 2), (65, 34), (3, 4)]).2 = left ∧
      (left.flipAll [(65, 34), (3, 4), (1, 2)]).2 = blank ∧
      ((blank.flipAll [(65, 34), (3, 4)]).2.flip 1 2).1 = true ∧
      left.litCount + 1 = (blank.flipAll [(65, 34), (3, 4)]).2.litCount ∧
      left ≠ blank := by
  intro left
  obtain ⟨hpixel, horder, htwice, hflip, hsame⟩ :=
    flip_sequence_law blank [(65, 34), (3, 4), (1, 2)]
  obtain ⟨told, g, he, hf, hg⟩ := hflip [(65, 34), (3, 4)] 1 2 [] rfl
  have hgl : left = g := hg
  have ht : told = true := by
    rw [hf.told_eq, pixel_flipAll]
    decide
  have hm : left.pixel 1 2 = false := by
    rw [hpixel 1 (by decide) 2 (by decide), pixel_blank]
    decide
  have hl : left.pixel 3 4 = true := by
    rw [hpixel 3 (by decide) 4 (by decide), pixel_blank]
    decide
  refine ⟨hm, hl, horder _ (by decide), htwice, by rw [he, ht], by rw [hgl, hf.darker ht], ?_⟩
  intro hb
  have hp := ((hsame left).2.mp hb.symm) 3 (by decide) 4 (by decide)
  rw [hl, pixel_blank] at hp
  cases hp

end Chip8.Framebuffer
