import Chip8.Proofs.LitCells
import Chip8.Proofs.SpriteDraw

/-!
# The balance of a draw

A sprite covers as many cells of the surface as its bytes have set bits, because no two of
the bits meet. A draw takes the covered cells that were lit out of the lit ones and puts the
others in, so the lit count, the set bits and the cells that were lit under the sprite balance.
The same draw once more puts everything back.
-/

namespace Chip8

namespace Sprite

/-- The number of set bits of a byte. -/
def bitCount (byte : UInt8) : Nat := (List.range 8).countP byte.toNat.testBit

/-- A byte has a column for each of its set bits. -/
theorem length_columns (byte : UInt8) : (columns byte).length = bitCount byte := by
  -- Columns count from the left and bits from the right.
  have hp : ((List.range 8).map fun column => 7 - column).Perm (List.range 8) := by decide
  rw [columns, bitCount, ← List.countP_eq_length_filter, ← hp.countP_eq, List.countP_map]
  rfl

/-- A sprite has a cell for each set bit of its bytes. -/
theorem length_cells (x y : Nat) (bytes : List UInt8) :
    (cells x y bytes).length = (bytes.map bitCount).foldr (· + ·) 0 := by
  induction bytes generalizing y with
  | nil => rfl
  | cons byte bytes ih =>
    rw [cells, List.length_append, List.length_map, length_columns, ih, List.map_cons,
      List.foldr_cons]

end Sprite

namespace Machine

open Framebuffer

variable {m n k l : Machine} {w : Word} {cell : Nat × Nat}

/-- The number of set bits of the sprite of a draw, which past the end of memory has none. -/
def spriteBits (m : Machine) (w : Word) : Nat :=
  ((List.range w.n.val).map fun row =>
    Sprite.bitCount (m.byteAt (m.i.toNat + row))).foldr (· + ·) 0

/-- The cells of the surface on which the sprite of a draw has set bits. -/
def stampedCells (m : Machine) (w : Word) : Finset (Nat × Nat) :=
  surface.filter fun cell => m.Stamps w cell.1 cell.2

/-- Those of them that are lit. -/
def litUnder (m : Machine) (w : Word) : Finset (Nat × Nat) :=
  surface.filter fun cell => m.Stamps w cell.1 cell.2 ∧ m.display.pixel cell.1 cell.2 = true

/-- A sprite has set bits on cells of the surface only. -/
theorem mem_stampedCells : cell ∈ m.stampedCells w ↔ m.Stamps w cell.1 cell.2 := by
  rw [stampedCells, Finset.mem_filter, mem_surface, and_iff_right_iff_imp]
  rintro ⟨row, _, column, _, hx, hy, _⟩
  rw [← hx, ← hy]
  exact ⟨Nat.mod_lt _ (by decide), Nat.mod_lt _ (by decide)⟩

/-- The lit cells under a sprite are those that it shares with the surface. -/
theorem litUnder_eq (m : Machine) (w : Word) :
    m.litUnder w = m.display.litCells ∩ m.stampedCells w := by
  rw [Finset.inter_comm, litUnder, stampedCells, litCells, Finset.filter_and]

/-- A sprite covers as many cells as it has set bits. -/
theorem card_stampedCells (m : Machine) (w : Word) :
    (m.stampedCells w).card = m.spriteBits w := by
  have hs : ((m.drawnCells w).map wrap).toFinset = m.stampedCells w := by
    ext cell
    rw [List.mem_toFinset, mem_stampedCells]
    exact mem_wrap_drawnCells
  rw [← hs, List.toFinset_card_of_nodup (m.nodup_wrap_drawnCells w), List.length_map, drawnCells,
    Sprite.length_cells, sprite, List.map_map]
  rfl

/-- A draw moves the cells under its sprite into the lit ones or out of them. -/
theorem Draws.litCells_eq (h : Draws w m n) :
    n.display.litCells = symmDiff m.display.litCells (m.stampedCells w) := by
  ext cell
  rw [Finset.mem_symmDiff, mem_stampedCells]
  by_cases hs : cell ∈ surface
  · obtain ⟨hx, hy⟩ := mem_surface.mp hs
    rw [mem_litCells, mem_litCells, h.pixel cell.1 hx cell.2 hy]
    by_cases ht : m.Stamps w cell.1 cell.2
    · simp [ht]
    · simp [ht]
  · -- Outside the surface nothing is lit and no sprite has bits.
    have ho : ∀ f : Framebuffer, cell ∉ f.litCells := fun f hl => hs (Finset.mem_filter.mp hl).1
    have ht : ¬m.Stamps w cell.1 cell.2 :=
      fun ht => hs (Finset.mem_filter.mp (mem_stampedCells.mpr ht)).1
    simp [ho, ht]

/-- A sprite collides if a cell under it is lit. -/
theorem collides_iff_litUnder : m.Collides w ↔ (m.litUnder w).Nonempty := by
  constructor
  · rintro ⟨px, hx, py, hy, hs, hl⟩
    exact ⟨(px, py), Finset.mem_filter.mpr ⟨mem_surface.mpr ⟨hx, hy⟩, hs, hl⟩⟩
  · rintro ⟨cell, hc⟩
    obtain ⟨hs, ht, hl⟩ := Finset.mem_filter.mp hc
    obtain ⟨hx, hy⟩ := mem_surface.mp hs
    exact ⟨cell.1, hx, cell.2, hy, ht, hl⟩

/-- How a draw changes the lit count. -/
structure Balances (w : Word) (m n : Machine) : Prop where
  /-- It grows by the set bits of the sprite, less two for each of them that found its cell
  lit. -/
  count : n.display.litCount + 2 * (m.litUnder w).card = m.display.litCount + m.spriteBits w
  /-- The flag is cleared exactly if it has grown by all of them. -/
  flag : n.v.get flagRegister = 0 ↔ n.display.litCount = m.display.litCount + m.spriteBits w

/-- Every draw changes it in this way. -/
theorem Draws.balances (h : Draws w m n) : Balances w m n := by
  have hc := card_symmDiff_add_card_inter m.display.litCells (m.stampedCells w)
  rw [← h.litCells_eq, ← litUnder_eq, card_litCells, card_litCells, card_stampedCells] at hc
  refine ⟨hc, ?_⟩
  rw [h.flag_eq_zero_iff, collides_iff_litUnder, ← Finset.card_pos]
  omega

/-- A machine shows a surface and would draw the sprite of a word on it where another one
would. -/
structure SameScene (w : Word) (n k : Machine) : Prop where
  /-- The surfaces are the same. -/
  display : k.display = n.display
  /-- So are the bytes of memory. -/
  memory : k.memory = n.memory
  /-- The sprite begins at the same byte. -/
  index : k.i = n.i
  /-- It has the same column. -/
  column : k.v.get w.x = n.v.get w.x
  /-- It has the same row. -/
  row : k.v.get w.y = n.v.get w.y

/-- A draw that does not overwrite its position leaves the sprite where it is. -/
theorem Draws.stamps_iff (h : Draws w m n) (hx : w.x ≠ flagRegister) (hy : w.y ≠ flagRegister)
    (hs : SameScene w n k) (px py : Nat) : k.Stamps w px py ↔ m.Stamps w px py := by
  have hb : k.byteAt = m.byteAt := by
    funext address
    rw [byteAt, byteAt, hs.memory, h.memory]
  rw [Stamps, Stamps, hs.column, hs.row, hs.index, hb, h.registers w.x hx, h.registers w.y hy,
    h.index]

/-- What a draw is that takes another one back. -/
structure TakesBack (w : Word) (m l : Machine) : Prop where
  /-- The surface is as it was before the other one. -/
  display : l.display = m.display
  /-- The flag is set exactly if a cell under the sprite was unlit then. -/
  flag : l.v.get flagRegister = 1 ↔
    ∃ px < 64, ∃ py < 32, m.Stamps w px py ∧ m.display.pixel px py = false

/-- A draw takes back the same draw before it. -/
theorem Draws.takesBack (h : Draws w m n) (hx : w.x ≠ flagRegister) (hy : w.y ≠ flagRegister)
    (hs : SameScene w n k) (hl : Draws w k l) : TakesBack w m l := by
  have ht := h.stamps_iff hx hy hs
  have hc : k.stampedCells w = m.stampedCells w := by
    ext cell
    rw [mem_stampedCells, mem_stampedCells, ht]
  constructor
  · rw [← litCells_inj, hl.litCells_eq, hs.display, h.litCells_eq, hc]
    exact symmDiff_symmDiff_cancel_right _ _
  · rw [hl.flag_eq_one_iff_collides, Collides, hs.display]
    refine exists_congr fun px => and_congr_right fun hpx =>
      exists_congr fun py => and_congr_right fun hpy => ?_
    rw [ht, h.pixel px hpx py hpy]
    refine and_congr_right fun hm => ?_
    rw [decide_eq_true hm, Bool.xor_true, Bool.not_eq_true']

end Machine

/-- The balance of draws: after a draw the lit count and twice the number of the cells that
were lit under its sprite make up the lit count before it and the set bits of the sprite, so
the flag is cleared exactly if the lit count has grown by all set bits. If the position is not
held by the flag register, the same draw made again brings back the surface, and its flag is
set exactly if a cell under the sprite was unlit at first. -/
theorem draw_balance_law {w : Word} (hw : w.opcode = 0xD) :
    (∀ (source : ShiftSource) (random : Random.Source) (m : Machine), ∃ n,
      m.execute source random (.decode w) = .ok n ∧ m.Balances w n ∧
      (w.x ≠ flagRegister → w.y ≠ flagRegister →
        ∀ (source : ShiftSource) (random : Random.Source) (k : Machine), n.SameScene w k → ∃ l,
          k.execute source random (.decode w) = .ok l ∧ m.TakesBack w l)) ∧
    ∀ (source : ShiftSource) (c : Core), c.machine.fetch = w → ∃ n,
      c.step source = (⟨n, c.random⟩, .ok c.upcoming) ∧ c.machine.Balances w n ∧
      (w.x ≠ flagRegister → w.y ≠ flagRegister →
        ∀ (source : ShiftSource) (d : Core), d.machine.fetch = w → n.SameScene w d.machine → ∃ l,
          d.step source = (⟨l, d.random⟩, .ok d.upcoming) ∧ c.machine.TakesBack w l) := by
  constructor
  · intro source random m
    obtain ⟨n, he, hn⟩ := m.execute_of_draw hw source random
    refine ⟨n, he, hn.balances, ?_⟩
    intro hx hy again random k hs
    obtain ⟨l, hk, hl⟩ := k.execute_of_draw hw again random
    exact ⟨l, hk, hn.takesBack hx hy hs hl⟩
  · intro source c hc
    obtain ⟨n, he, hn⟩ := Core.step_of_draw hw hc source
    refine ⟨n, he, hn.balances, ?_⟩
    intro hx hy again d hd hs
    obtain ⟨l, hk, hl⟩ := Core.step_of_draw hw hd again
    exact ⟨l, hk, hn.takesBack hx hy hs hl⟩

/-- A sprite of two rows at the last byte of memory, drawn over the corner of the surface: one
of its two set bits lights the corner, the other one turns off the only lit cell, and the lit
count stays. Drawn again it lights that cell and turns off the corner, which sets the flag,
too. -/
theorem draw_balance_law_of_corner :
    ∃ (m n l : Machine) (w : Word), w.opcode = 0xD ∧ w.x ≠ flagRegister ∧ w.y ≠ flagRegister ∧
      m.execute .vx (.seeded 0) (.decode w) = .ok n ∧
      n.execute .vx (.seeded 0) (.decode w) = .ok l ∧
      m.display.litCount = 1 ∧ m.spriteBits w = 2 ∧ n.display.litCount = 1 ∧
      (m.litUnder w).card = 1 ∧ n.v.get flagRegister ≠ 0 ∧
      l.display = m.display ∧ l.v.get flagRegister = 1 := by
  let m : Machine := { Machine.initial with
    memory := Memory.zero.overlay 0xFFF [0xC0]
    v := ((Vector.replicate 16 0).set 0 63).set 1 63
    i := 0xFFF
    display := (Framebuffer.blank.flip 0 31).2 }
  obtain ⟨n, he, hn, hagain⟩ := (draw_balance_law (w := 0xD012) rfl).1 .vx (.seeded 0) m
  obtain ⟨l, hk, hl⟩ := hagain (by decide) (by decide) .vx (.seeded 0) n ⟨rfl, rfl, rfl, rfl, rfl⟩
  have hc : (m.display.litCount, m.spriteBits 0xD012,
      (m.drawSprite 0 1 2).advance.display.litCount) = (1, 2, 1) := by decide +kernel
  simp only [Prod.mk.injEq] at hc
  obtain ⟨hm, hb, hd⟩ := hc
  have hs : n = (m.drawSprite 0 1 2).advance := Except.ok.inj he.symm
  rw [← hs] at hd
  have hcount := hn.count
  have hcorner : m.Stamps 0xD012 63 31 ∧ m.display.pixel 63 31 = false := by decide +kernel
  refine ⟨m, n, l, 0xD012, rfl, by decide, by decide, he, hk, hm, hb, hd, by omega, ?_,
    hl.display, hl.flag.mpr ⟨63, by decide, 31, by decide, hcorner⟩⟩
  rw [Ne, hn.flag]
  omega

end Chip8
