import Chip8.Proofs.Draws
import Chip8.Proofs.Flips

/-!
# Drawing sprites

A sprite is drawn by flips, one for each of its set bits. It has at most fifteen rows of
eight columns, so however it wraps around, no two of its bits come to lie on one cell of
the surface. A draw therefore inverts each cell under the sprite once, and its flag tells
whether one of them was lit before the draw, although the surface changes meanwhile.
-/

namespace Chip8

namespace Sprite

open Framebuffer

/-- The columns of a byte are those of its set bits. -/
theorem mem_columns {byte : UInt8} {column : Nat} :
    column ∈ columns byte ↔ column < 8 ∧ byte.toNat.testBit (7 - column) = true := by
  rw [columns, List.mem_filter, List.mem_range]

/-- A byte has no column twice. -/
theorem nodup_columns (byte : UInt8) : (columns byte).Nodup :=
  List.nodup_range.filter _

/-- A sprite has a cell for each set bit of each of its bytes. -/
theorem mem_cells {x y : Nat} {bytes : List UInt8} {cell : Nat × Nat} :
    cell ∈ cells x y bytes ↔ ∃ row byte, bytes[row]? = some byte ∧
      ∃ column ∈ columns byte, cell = (x + column, y + row) := by
  induction bytes generalizing y with
  | nil => simp [cells]
  | cons head bytes ih =>
    rw [cells, List.mem_append, List.mem_map, ih]
    constructor
    · rintro (⟨column, hc, he⟩ | ⟨row, byte, hb, column, hc, he⟩)
      · exact ⟨0, head, rfl, column, hc, he.symm⟩
      · refine ⟨row + 1, byte, hb, column, hc, ?_⟩
        rw [he, Nat.add_assoc, Nat.add_comm 1]
    · rintro ⟨row, byte, hb, column, hc, he⟩
      cases row with
      | zero =>
        cases hb
        exact Or.inl ⟨column, hc, he.symm⟩
      | succ row =>
        refine Or.inr ⟨row, byte, hb, column, hc, ?_⟩
        rw [he, Nat.add_assoc, Nat.add_comm 1]

/-- The cells of one row do not meet when they wrap around. -/
theorem nodup_wrap_row (x y : Nat) (byte : UInt8) :
    (((columns byte).map fun column => (x + column, y)).map wrap).Nodup := by
  rw [List.map_map]
  apply (nodup_columns byte).map_on
  intro a ha b hb he
  have hal := (mem_columns.mp ha).1
  have hbl := (mem_columns.mp hb).1
  have hx : (x + a) % 64 = (x + b) % 64 := congrArg Prod.fst he
  omega

/-- The cells of a sprite that is not higher than the surface do not meet when they wrap
around. -/
theorem nodup_wrap_cells (x : Nat) {y : Nat} {bytes : List UInt8} (h : bytes.length ≤ 32) :
    ((cells x y bytes).map wrap).Nodup := by
  induction bytes generalizing y with
  | nil => exact List.nodup_nil
  | cons byte bytes ih =>
    rw [List.length_cons] at h
    rw [cells, List.map_append, List.nodup_append]
    refine ⟨nodup_wrap_row x y byte, ih (by omega), ?_⟩
    -- The rows below lie on other rows of the surface.
    intro a ha b hb he
    obtain ⟨cell, hc, rfl⟩ := List.mem_map.mp ha
    obtain ⟨column, _, rfl⟩ := List.mem_map.mp hc
    obtain ⟨other, ho, rfl⟩ := List.mem_map.mp hb
    obtain ⟨row, _, hr, _, _, rfl⟩ := mem_cells.mp ho
    obtain ⟨hl, _⟩ := List.getElem?_eq_some_iff.mp hr
    have hy : y % 32 = (y + 1 + row) % 32 := congrArg Prod.snd he
    omega

end Sprite

namespace Machine

variable {m : Machine} {w : Word} {px py : Nat}

/-- The sprite of a draw has a set bit on a cell of the surface: bits are read from the
left, bytes from the address register on, and both axes wrap around. -/
def Stamps (m : Machine) (w : Word) (px py : Nat) : Prop :=
  ∃ row < w.n.val, ∃ column < 8,
    ((m.v.get w.x).toNat + column) % 64 = px ∧ ((m.v.get w.y).toNat + row) % 32 = py ∧
      (m.byteAt (m.i.toNat + row)).toNat.testBit (7 - column) = true

/-- Where a sprite has set bits can be computed. -/
instance (m : Machine) (w : Word) (px py : Nat) : Decidable (m.Stamps w px py) :=
  inferInstanceAs (Decidable (∃ row < w.n.val, ∃ column < 8, _))

/-- A set bit of the sprite lies on a lit cell. -/
def Collides (m : Machine) (w : Word) : Prop :=
  ∃ px < 64, ∃ py < 32, m.Stamps w px py ∧ m.display.pixel px py = true

/-- The cells that are flipped when a draw is executed. -/
def drawnCells (m : Machine) (w : Word) : List (Nat × Nat) :=
  Sprite.cells m.v[w.x].toNat m.v[w.y].toNat (m.sprite w.n.val)

/-- The bytes of a sprite are those from the address register on. -/
theorem getElem?_sprite_eq_some_iff {rows row : Nat} {byte : UInt8} :
    (m.sprite rows)[row]? = some byte ↔
      row < rows ∧ m.byteAt (m.i.toNat + row) = byte := by
  rw [sprite, List.getElem?_map]
  by_cases hr : row < rows
  · rw [List.getElem?_range hr, Option.map_some, Option.some.injEq, and_iff_right hr]
  · rw [List.getElem?_eq_none (by rw [List.length_range]; omega)]
    simp [hr]

/-- The flipped cells wrap around to those on which the sprite has set bits. -/
theorem mem_wrap_drawnCells :
    (px, py) ∈ (m.drawnCells w).map Framebuffer.wrap ↔ m.Stamps w px py := by
  rw [List.mem_map]
  constructor
  · rintro ⟨cell, hc, he⟩
    obtain ⟨row, byte, hb, column, hm, rfl⟩ := Sprite.mem_cells.mp hc
    obtain ⟨hr, hv⟩ := getElem?_sprite_eq_some_iff.mp hb
    obtain ⟨hl, ht⟩ := Sprite.mem_columns.mp hm
    rw [← hv] at ht
    exact ⟨row, hr, column, hl, congrArg Prod.fst he, congrArg Prod.snd he, ht⟩
  · rintro ⟨row, hr, column, hl, hx, hy, ht⟩
    refine ⟨((m.v.get w.x).toNat + column, (m.v.get w.y).toNat + row), ?_, Prod.ext hx hy⟩
    apply Sprite.mem_cells.mpr
    exact ⟨row, _, getElem?_sprite_eq_some_iff.mpr ⟨hr, rfl⟩, column,
      Sprite.mem_columns.mpr ⟨hl, ht⟩, rfl⟩

/-- No cell of the surface is flipped twice in a draw. -/
theorem nodup_wrap_drawnCells (m : Machine) (w : Word) :
    ((m.drawnCells w).map Framebuffer.wrap).Nodup := by
  apply Sprite.nodup_wrap_cells
  rw [sprite, List.length_map, List.length_range]
  have hn : w.n.val < 16 := w.n.isLt
  omega

/-- A flipped cell is lit exactly if the sprite collides. -/
theorem exists_lit_drawnCells_iff :
    (∃ cell ∈ m.drawnCells w, m.display.lit cell = true) ↔ m.Collides w := by
  constructor
  · rintro ⟨cell, hc, hl⟩
    obtain ⟨hx, hy⟩ := Framebuffer.wrap_lt cell
    have hs : m.Stamps w (Framebuffer.wrap cell).1 (Framebuffer.wrap cell).2 :=
      mem_wrap_drawnCells.mp (List.mem_map_of_mem hc)
    exact ⟨_, hx, _, hy, hs, hl⟩
  · rintro ⟨px, _, py, _, hs, hl⟩
    obtain ⟨cell, hc, he⟩ := List.mem_map.mp (mem_wrap_drawnCells.mpr hs)
    refine ⟨cell, hc, ?_⟩
    rw [Framebuffer.lit, he]
    exact hl

/-- What a draw does to a machine. -/
structure Draws (w : Word) (m n : Machine) : Prop where
  /-- The cells under set bits of the sprite are inverted, and no other ones. -/
  pixel : ∀ px < 64, ∀ py < 32,
    n.display.pixel px py = (m.display.pixel px py ^^ decide (m.Stamps w px py))
  /-- The flag is set if one of them was lit. -/
  flag_of_collides : m.Collides w → n.v.get flagRegister = 1
  /-- It is cleared otherwise. -/
  flag_of_not_collides : ¬m.Collides w → n.v.get flagRegister = 0
  /-- A sprite without rows clears it. -/
  flag_of_empty : w.n = 0 → n.v.get flagRegister = 0
  /-- The other registers are kept. -/
  registers : ∀ r ≠ flagRegister, n.v.get r = m.v.get r
  /-- Memory is kept. -/
  memory : n.memory = m.memory
  /-- The address register is kept. -/
  index : n.i = m.i
  /-- The call stack is kept with all its slots. -/
  calls : n.calls = m.calls

/-- After a draw the flag register holds one exactly if the sprite collided. -/
theorem Draws.flag_eq_one_iff_collides {n : Machine} (h : Draws w m n) :
    n.v.get flagRegister = 1 ↔ m.Collides w := by
  constructor
  · intro hf
    by_contra hn
    rw [h.flag_of_not_collides hn] at hf
    exact absurd hf (by decide)
  · exact h.flag_of_collides

/-- It holds zero exactly if the sprite did not. -/
theorem Draws.flag_eq_zero_iff {n : Machine} (h : Draws w m n) :
    n.v.get flagRegister = 0 ↔ ¬m.Collides w := by
  constructor
  · intro hf hc
    rw [h.flag_of_collides hc] at hf
    exact absurd hf (by decide)
  · exact h.flag_of_not_collides

/-- A sprite without rows collides with nothing. -/
theorem not_collides_of_empty (h : w.n = 0) : ¬m.Collides w := by
  rintro ⟨px, _, py, _, ⟨row, hr, _⟩, _⟩
  rw [h] at hr
  exact absurd hr (Nat.not_lt_zero row)

/-- The flag register holds the flag that was written last, and every other register what
it held. -/
theorem get_setFlag (m : Machine) (flag : Bool) (r : Fin 16) :
    (m.setFlag flag).v.get r = if r = flagRegister then (if flag then 1 else 0) else m.v.get r :=
  m.get_setV flagRegister r _

/-- Drawing the sprite of a word is a draw. -/
theorem draws_drawSprite (m : Machine) (w : Word) :
    Draws w m (m.drawSprite w.x w.y w.n.val).advance := by
  have hn := m.nodup_wrap_drawnCells w
  have hv : ∀ r : Fin 16, (m.drawSprite w.x w.y w.n.val).advance.v.get r =
      if r = flagRegister then (if (m.display.flipAll (m.drawnCells w)).1 then 1 else 0)
      else m.v.get r := fun r => get_setFlag _ _ r
  have hmiss : ¬m.Collides w → (m.drawSprite w.x w.y w.n.val).advance.v.get flagRegister = 0 := by
    intro hc
    rw [← exists_lit_drawnCells_iff, ← m.display.flipAll_fst_iff hn] at hc
    rw [hv, if_pos rfl, if_neg hc]
  refine ⟨?_, ?_, hmiss, fun he => hmiss (not_collides_of_empty he), ?_, rfl, rfl, rfl⟩
  · intro px _ py _
    rw [← decide_eq_decide.mpr (mem_wrap_drawnCells (m := m) (w := w)),
      ← m.display.pixel_flipAll_of_nodup hn]
    rfl
  · intro hc
    rw [← exists_lit_drawnCells_iff, ← m.display.flipAll_fst_iff hn] at hc
    rw [hv, if_pos rfl, if_pos hc]
  · intro r hr
    rw [hv, if_neg hr]

end Machine

/-- The draws are one family of words. -/
theorem Instruction.decode_of_draw {w : Word} (h : w.opcode = 0xD) :
    decode w = .draw w.x w.y w.n := by
  rw [decode, h]
  rfl

/-- A draw that is stepped retires and draws the sprite of its word. -/
theorem Core.step_of_draw {c : Core} {w : Word} (hw : w.opcode = 0xD) (hc : c.machine.fetch = w)
    (source : ShiftSource) : ∃ n,
      c.step source = (⟨n, c.random⟩, .ok c.upcoming) ∧ Machine.Draws w c.machine n := by
  have hi : Instruction.decode c.upcoming.word = .draw w.x w.y w.n := by
    rw [← Instruction.decode_of_draw hw, ← hc]
    rfl
  -- The word that was fetched is no part of what a draw reads.
  have hl := c.machine.fetched.draws_drawSprite w
  refine ⟨(c.machine.fetched.drawSprite w.x w.y w.n.val).advance, ?_, ?_⟩
  · rw [Core.step, hi]
    rfl
  · exact ⟨hl.pixel, hl.flag_of_collides, hl.flag_of_not_collides, hl.flag_of_empty,
      hl.registers, hl.memory, hl.index, hl.calls⟩

/-- A draw that is executed draws the sprite of its word. -/
theorem Machine.execute_of_draw {w : Word} (hw : w.opcode = 0xD) (source : ShiftSource)
    (random : Random.Source) (m : Machine) : ∃ n,
      m.execute source random (.decode w) = .ok n ∧ m.Draws w n := by
  refine ⟨_, ?_, m.draws_drawSprite w⟩
  rw [Instruction.decode_of_draw hw]
  rfl

/-- The law of sprites: a draw does not fail, inverts exactly the cells of the surface on
which its sprite has a set bit, and sets the flag if one of them was lit before it and
clears the flag otherwise, whichever registers hold the position. It changes no other
register, neither memory nor the address register nor the call stack, and takes no random
byte. -/
theorem sprite_draw_law {w : Word} (hw : w.opcode = 0xD) :
    (∀ (source : ShiftSource) (random : Random.Source) (m : Machine), ∃ n,
      m.execute source random (.decode w) = .ok n ∧ m.Draws w n) ∧
    ∀ (source : ShiftSource) (c : Core), c.machine.fetch = w → ∃ n,
      c.step source = (⟨n, c.random⟩, .ok c.upcoming) ∧ Machine.Draws w c.machine n := by
  refine ⟨?_, ?_⟩
  · intro source random m
    exact Machine.execute_of_draw hw source random m
  · intro source c hc
    exact Core.step_of_draw hw hc source

/-- A sprite of two rows at the last byte of memory, drawn over the corner of the surface
at a position that the flag register holds: one of its two set bits lights the corner, the
other one turns off a lit cell at the left edge. -/
theorem sprite_draw_law_of_corner :
    ∃ (m n : Machine) (w : Word), w.opcode = 0xD ∧
      m.execute .vx (.seeded 0) (.decode w) = .ok n ∧ m.Draws w n ∧
      m.v.get w.x = 63 ∧ m.v.get w.y = 63 ∧ w.x = flagRegister ∧
      n.display.pixel 63 31 = true ∧ m.display.pixel 0 31 = true ∧
      n.display.pixel 0 31 = false ∧ n.v.get flagRegister = 1 := by
  let m : Machine := { Machine.initial with
    memory := Memory.zero.overlay 0xFFF [0xC0]
    v := (Vector.replicate 16 0).set 15 63
    i := 0xFFF
    display := (Framebuffer.blank.flip 0 31).2 }
  obtain ⟨n, he, hl⟩ := (sprite_draw_law (w := 0xDFF2) rfl).1 .vx (.seeded 0) m
  have hx : m.Stamps 0xDFF2 63 31 := by decide +kernel
  have hy : m.Stamps 0xDFF2 0 31 := by decide +kernel
  have hc : m.display.pixel 63 31 = false := by decide +kernel
  have hp : m.display.pixel 0 31 = true := by decide +kernel
  refine ⟨m, n, 0xDFF2, rfl, he, hl, rfl, rfl, rfl, ?_, hp, ?_, ?_⟩
  · rw [hl.pixel 63 (by decide) 31 (by decide), hc, decide_eq_true hx]
    rfl
  · rw [hl.pixel 0 (by decide) 31 (by decide), hp, decide_eq_true hy]
    rfl
  · exact hl.flag_of_collides ⟨0, by decide, 31, by decide, hy, hp⟩

end Chip8
