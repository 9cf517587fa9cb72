import Chip8.Proofs.ForwardPrograms
import Mathlib.Tactic.MkIffOfInductiveProp

/-!
# Control flow

Where a machine goes on is told by the word that it executes. Jumps and calls go to the address
of the word, a return goes behind the address that it takes from the call stack, and all other
words go on with the following word or with the one after it. The word is a pair of bytes at
the program counter, and past the end of memory both of them are zero, so a machine that has
left memory walks on word by word until the program counter wraps around.
-/

namespace Chip8

namespace Word

variable {w w' : Word} {v : Vector UInt8 16}

/-- A word tells the machine to skip the next one, the registers being as they are. The last
digit of a comparison of registers does not matter. -/
@[mk_iff]
inductive Skips (w : Word) (v : Vector UInt8 16) : Prop
  /-- A register holds the operand. -/
  | operand (hw : w.opcode = 3) (hv : v.get w.x = w.nn)
  /-- A register does not hold the operand. -/
  | notOperand (hw : w.opcode = 4) (hv : v.get w.x ≠ w.nn)
  /-- Two registers hold the same. -/
  | same (hw : w.opcode = 5) (hv : v.get w.x = v.get w.y)
  /-- Two registers do not hold the same. -/
  | different (hw : w.opcode = 9) (hv : v.get w.x ≠ v.get w.y)

/-- Two words ask the same question and skip on opposite answers. -/
inductive Opposite (w w' : Word) : Prop
  /-- Both compare a register with an operand. -/
  | operand (hw : w.opcode = 3) (hw' : w'.opcode = 4) (hx : w.x = w'.x) (hn : w.nn = w'.nn)
  /-- Both compare two registers. -/
  | registers (hw : w.opcode = 5) (hw' : w'.opcode = 9) (hx : w.x = w'.x) (hy : w.y = w'.y)

/-- A word compares two values and does nothing else. -/
def Compares (w : Word) : Prop :=
  w.opcode = 3 ∨ w.opcode = 4 ∨ w.opcode = 5 ∨ w.opcode = 9

/-- A word that tells the machine to skip compares. -/
theorem Skips.compares (h : w.Skips v) : w.Compares := by
  cases h with
  | operand hw => exact Or.inl hw
  | notOperand hw => exact Or.inr (Or.inl hw)
  | same hw => exact Or.inr (Or.inr (Or.inl hw))
  | different hw => exact Or.inr (Or.inr (Or.inr hw))

/-- Opposite words compare. -/
theorem Opposite.compares (h : w.Opposite w') : w.Compares ∧ w'.Compares := by
  cases h with
  | operand hw hw' => exact ⟨Or.inl hw, Or.inr (Or.inl hw')⟩
  | registers hw hw' => exact ⟨Or.inr (Or.inr (Or.inl hw)), Or.inr (Or.inr (Or.inr hw'))⟩

/-- Of two opposite words exactly one skips. -/
theorem Opposite.skips_iff (h : w.Opposite w') : w.Skips v ↔ ¬w'.Skips v := by
  rw [Word.skips_iff, Word.skips_iff]
  cases h with
  | operand hw hw' hx hn => simp [hw, hw', hx, hn]
  | registers hw hw' hx hy => simp [hw, hw', hx, hy]

end Word

namespace Machine

variable {m n : Machine} {w w' : Word} {instruction : Instruction}

/-- The instruction of a comparison skips if the comparison tells the machine to. -/
theorem skips_of_compares (h : w.Compares) : m.skips (.decode w) = true ↔ w.Skips m.v := by
  rw [Word.skips_iff]
  rcases h with hw | hw | hw | hw
  all_goals
    rw [Instruction.decode, hw]
    first
      | exact beq_iff_eq.trans (by simp)
      | exact bne_iff_ne.trans (by simp)

/-- An instruction that skips is that of a comparison. -/
theorem compares_of_skips (h : m.skips (.decode w) = true) : w.Compares := by
  cases hi : Instruction.decode w with
  | skipIs => exact Or.inl (Instruction.opcode_of_decode hi (by simp))
  | skipIsNot => exact Or.inr (Or.inl (Instruction.opcode_of_decode hi (by simp)))
  | skipSame => exact Or.inr (Or.inr (Or.inl (Instruction.opcode_of_decode hi (by simp))))
  | skipDifferent => exact Or.inr (Or.inr (Or.inr (Instruction.opcode_of_decode hi (by simp))))
  | _ =>
    rw [hi] at h
    cases h

/-- A word tells the machine to skip if its instruction is a skip whose condition holds. -/
theorem skips_decode_iff : m.skips (.decode w) = true ↔ w.Skips m.v := by
  constructor
  · intro h
    exact (skips_of_compares (compares_of_skips h)).mp h
  · intro h
    exact (skips_of_compares h.compares).mpr h

/-- A skip leaps nowhere. -/
theorem leaps_of_skips (h : m.skips instruction = true) : instruction.leaps = false := by
  cases instruction with
  | ret | jump | call | jumpOffset => cases h
  | _ => rfl

/-- A word that leaps is a jump, a call or the return. -/
theorem word_of_leaps (h : (Instruction.decode w).leaps = true) :
    w.opcode = 1 ∨ w.opcode = 2 ∨ w.opcode = 0xB ∨ w = 0x00EE := by
  cases hi : Instruction.decode w with
  | jump target => exact Or.inl (Instruction.opcode_of_decode hi (by simp))
  | call target => exact Or.inr (Or.inl (Instruction.opcode_of_decode hi (by simp)))
  | jumpOffset target =>
    exact Or.inr (Or.inr (Or.inl (Instruction.opcode_of_decode hi (by simp))))
  | ret => exact Or.inr (Or.inr (Or.inr (Instruction.decode_eq_ret_iff.mp hi)))
  | _ =>
    rw [hi] at h
    cases h

/-- Jumps and calls go to the address that they name. -/
theorem Effect.of_target {target : UInt16} (h : Effect m instruction n)
    (hi : instruction = .jump target ∨ instruction = .call target) : n.pc = target := by
  rcases hi with rfl | rfl
  · cases h with
    | jumped => rfl
    | passed hn => cases hn
  · cases h with
    | called hp => rfl
    | passed hn => cases hn

/-- Where a machine goes on behind a word that it has executed. -/
structure Continues (w : Word) (m n : Machine) : Prop where
  /-- Behind a jump or a call at the address of the word. -/
  jumped : w.opcode = 1 ∨ w.opcode = 2 → n.pc = w.nnn
  /-- Behind a jump with an offset as far past this address as the first register says, also
  if this is past the end of memory. -/
  leapt : w.opcode = 0xB → n.pc.toNat = w.nnn.toNat + (m.v.get 0).toNat
  /-- Behind a return at the word that follows the innermost call, whose address is taken from
  the call stack. While the machine is within its bounds this does not wrap around. -/
  returned : w = 0x00EE → ∃ address : UInt16, m.calls.live = n.calls.live ++ [address] ∧
    n.pc.toNat = (address.toNat + 2) % 65536 ∧ (m.Bounded → n.pc.toNat = address.toNat + 2)
  /-- Behind a skip whose condition holds at the word after the following one. -/
  skipped : w.Skips m.v → n.pc.toNat = (m.pc.toNat + 4) % 65536
  /-- Behind every other word at the following one. -/
  passed : w.opcode ≠ 1 → w.opcode ≠ 2 → w.opcode ≠ 0xB → w ≠ 0x00EE → ¬w.Skips m.v →
    n.pc.toNat = (m.pc.toNat + 2) % 65536

/-- A return that is executed goes behind the address that it takes. -/
theorem Effect.continues_of_ret (h : Effect m .ret n) : ∃ address : UInt16,
    m.calls.live = n.calls.live ++ [address] ∧
    n.pc.toNat = (address.toNat + 2) % 65536 ∧ (m.Bounded → n.pc.toNat = address.toNat + 2) := by
  obtain ⟨address, calls, hp, hn, hs⟩ := h.of_ret
  have ha : (address + 2).toNat = (address.toNat + 2) % 65536 := UInt16.toNat_add address 2
  rw [hn, hs]
  refine ⟨address, CallStack.live_pop? hp, ha, ?_⟩
  intro hb
  exact (toNat_add_length (hb.popped hp) (Or.inl rfl)).1

/-- Every word that is executed goes on there. -/
theorem continues_of_execute {source : ShiftSource} {random : Random.Source}
    (h : m.execute source random (.decode w) = .ok n) : Continues w m n := by
  have he := effect_of_execute h
  refine ⟨?_, ?_, ?_, ?_, ?_⟩
  · rintro (hw | hw)
    · refine he.of_target (Or.inl ?_)
      rw [Instruction.decode, hw]
      rfl
    · refine he.of_target (Or.inr ?_)
      rw [Instruction.decode, hw]
      rfl
  · intro hw
    have hi : Instruction.decode w = .jumpOffset w.nnn := by
      rw [Instruction.decode, hw]
      rfl
    rw [hi] at he
    rw [he.of_jumpOffset]
    exact (toNat_add_byte w.toNat_nnn_lt (m.v.get 0)).1
  · intro hw
    rw [Instruction.decode_eq_ret_iff.mpr hw] at he
    exact he.continues_of_ret
  · intro hs
    rw [← skips_decode_iff] at hs
    rw [pc_of_execute h (leaps_of_skips hs), hs]
    exact UInt16.toNat_add m.pc 4
  · intro h1 h2 hb hr hs
    rw [← skips_decode_iff, Bool.not_eq_true] at hs
    have hl : (Instruction.decode w).leaps = false := by
      rw [Bool.eq_false_iff]
      intro hl
      rcases word_of_leaps hl with hw | hw | hw | hw
      · exact h1 hw
      · exact h2 hw
      · exact hb hw
      · exact hr hw
    rw [pc_of_execute h hl, hs]
    exact UInt16.toNat_add m.pc 2

/-- A comparison does not fail and does nothing but skip or not. -/
theorem execute_of_compares (h : w.Compares) (source : ShiftSource) (random : Random.Source)
    (m : Machine) : m.execute source random (.decode w) =
      .ok (m.skipIf (m.skips (.decode w))) := by
  rcases h with hw | hw | hw | hw
  all_goals
    rw [Instruction.decode, hw]
    rfl

/-- Of two opposite words that are executed on one machine exactly one skips. -/
theorem execute_of_opposite (h : w.Opposite w') (source : ShiftSource) (random : Random.Source)
    (m : Machine) : ∃ n n', m.execute source random (.decode w) = .ok n ∧
      m.execute source random (.decode w') = .ok n' ∧
      (n.pc = m.pc + 4 ∧ n'.pc = m.pc + 2 ∨ n.pc = m.pc + 2 ∧ n'.pc = m.pc + 4) := by
  have hs : m.skips (.decode w) = !m.skips (.decode w') := by
    rw [Bool.eq_iff_iff, skips_decode_iff, h.skips_iff, ← skips_decode_iff, Bool.not_eq_true,
      Bool.not_eq_true']
  refine ⟨_, _, execute_of_compares h.compares.1 source random m,
    execute_of_compares h.compares.2 source random m, ?_⟩
  rw [pc_skipIf, pc_skipIf, hs]
  cases m.skips (.decode w') with
  | false => exact Or.inl ⟨rfl, rfl⟩
  | true => exact Or.inr ⟨rfl, rfl⟩

/-- How the word at the program counter is read. -/
structure ReadsPair (m : Machine) : Prop where
  /-- It is a pair of bytes, the high one first. -/
  pair : m.fetch.toNat =
    256 * (m.byteAt m.pc.toNat).toNat + (m.byteAt (m.pc.toNat + 1)).toNat
  /-- Inside memory they are the bytes of memory. -/
  inside : ∀ (address : Nat) (h : address < memorySize),
    m.byteAt address = m.memory.get ⟨address, h⟩
  /-- Past its end they are zero. -/
  beyond : ∀ address, memorySize ≤ address → m.byteAt address = 0
  /-- At the last address of memory the low one is. -/
  last : m.pc = 0xFFF → m.fetch.nn = 0

/-- Every machine reads it so. -/
theorem readsPair (m : Machine) : m.ReadsPair := by
  refine ⟨Word.toNat_ofBytes _ _, ?_, fun _ h => byteAt_of_le h, ?_⟩
  · intro address ha
    rw [byteAt, Memory.byteAt, Vector.getElem?_eq_getElem ha]
    rfl
  · intro hp
    have hz : m.byteAt (m.pc.toNat + 1) = 0 := by
      rw [hp]
      exact byteAt_of_le (Nat.le_refl memorySize)
    have hw : m.fetch.toNat = 256 * (m.byteAt m.pc.toNat).toNat := by
      rw [fetch, Word.toNat_ofBytes, hz]
      rfl
    apply UInt8.toNat_inj.mp
    rw [Word.nn, UInt8.toNat_ofNat', hw]
    exact Nat.mul_mod_right 256 _

end Machine

namespace Core

variable {source : ShiftSource} {c : Core} {k : Nat}

/-- Past the end of memory a step reads zeros and goes on with the following word. -/
theorem step_of_pastEnd (h : memorySize ≤ c.machine.pc.toNat) (source : ShiftSource) :
    c.step source = (⟨{ c.machine with
      word := 0
      wordAddress := c.machine.pc
      pc := c.machine.pc + 2 }, c.random⟩, .ok c.upcoming) := by
  have hp : c.machine.pastEnd = true := decide_eq_true h
  rw [step_of_idle (Machine.instruction_of_pastEnd hp), ← Machine.fetch_of_pastEnd hp]
  rfl

/-- What becomes of a core that walks a number of steps. -/
structure Walks (source : ShiftSource) (c : Core) (k : Nat) : Prop where
  /-- All of the steps succeed. -/
  succeeds : ∀ j < k, ((c.after source j).step source).2 = .ok (c.after source j).upcoming
  /-- The program counter has gone as many words further. -/
  pc : (c.after source k).machine.pc.toNat = (c.machine.pc.toNat + 2 * k) % 65536
  /-- Nothing else has changed but the fetched word and its address. -/
  kept : ∃ word wordAddress, c.after source k = ⟨{ c.machine with
    word := word
    wordAddress := wordAddress
    pc := (c.after source k).machine.pc }, c.random⟩

/-- From past the end of memory a core walks until the program counter wraps around. -/
theorem walks_of_pastEnd (h : memorySize ≤ c.machine.pc.toNat)
    (hk : c.machine.pc.toNat + 2 * k ≤ 65536) : c.Walks source k := by
  induction k with
  | zero =>
    refine ⟨fun j hj => absurd hj (Nat.not_lt_zero j), ?_, c.machine.word,
      c.machine.wordAddress, rfl⟩
    exact (Nat.mod_eq_of_lt c.machine.pc.toNat_lt).symm
  | succ k ih =>
    obtain ⟨hs, hp, word, wordAddress, hc⟩ := ih (by omega)
    -- One more step is possible, so the program counter has not wrapped around yet.
    rw [Nat.mod_eq_of_lt (by omega)] at hp
    have hx := step_of_pastEnd (c := c.after source k) (by omega) source
    have hn : (c.after source (k + 1)).machine.pc = (c.after source k).machine.pc + 2 := by
      rw [after, hx]
    refine ⟨?_, ?_, 0, (c.after source k).machine.pc, ?_⟩
    · intro j hj
      obtain hl | he := Nat.lt_succ_iff_lt_or_eq.mp hj
      · exact hs j hl
      · rw [he, hx]
    · rw [hn, UInt16.toNat_add, hp]
      rfl
    · rw [hn, after, hx, hc]

end Core

/-- The law of control flow: a word that is executed without a fault tells where the machine
goes on, and of two opposite comparisons exactly one skips, on every machine. The word is the
pair of bytes at the program counter, with zeros past the end of memory, so from there a
machine walks on word by word, until the program counter wraps around, and changes in nothing
else. -/
theorem control_flow_law :
    (∀ (source : ShiftSource) (random : Random.Source) (m n : Machine) (w : Word),
      m.execute source random (.decode w) = .ok n → m.Continues w n) ∧
    (∀ (source : ShiftSource) (c : Core) (record : Retired), (c.step source).2 = .ok record →
      c.machine.Continues c.machine.fetch (c.step source).1.machine) ∧
    (∀ w w' : Word, w.Opposite w' → ∀ (source : ShiftSource) (random : Random.Source)
      (m : Machine), ∃ n n', m.execute source random (.decode w) = .ok n ∧
        m.execute source random (.decode w') = .ok n' ∧
        (n.pc = m.pc + 4 ∧ n'.pc = m.pc + 2 ∨ n.pc = m.pc + 2 ∧ n'.pc = m.pc + 4)) ∧
    (∀ m : Machine, m.ReadsPair) ∧
    ∀ (source : ShiftSource) (c : Core), memorySize ≤ c.machine.pc.toNat →
      ∀ k, c.machine.pc.toNat + 2 * k ≤ 65536 → c.Walks source k := by
  refine ⟨?_, ?_, ?_, Machine.readsPair, ?_⟩
  · intro source random m n w h
    exact Machine.continues_of_execute h
  · intro source c record h
    have hc := Machine.continues_of_execute (Core.execute_of_step h)
    -- The word that was fetched is no part of what control flow reads.
    refine ⟨hc.jumped, hc.leapt, ?_, hc.skipped, hc.passed⟩
    intro hw
    obtain ⟨address, hl, hp, hb⟩ := hc.returned hw
    exact ⟨address, hl, hp, fun h => hb ⟨h.slot, h.index⟩⟩
  · intro w w' h source random m
    exact Machine.execute_of_opposite h source random m
  · intro source c h k hk
    exact Core.walks_of_pastEnd h hk

/-- The last byte of memory holds the upper half of a comparison that skips, so the machine
goes on behind the end of memory; near the last address it walks over it to address zero.
Inside memory an offset leads out of it, a return goes behind its call, and of two opposite
comparisons exactly one skips, whatever their last digits. -/
theorem control_flow_law_of_last_bytes :
    let c : Core := ⟨{ Machine.initial with
      memory := Memory.zero.overlay 0xFFF [0x30]
      pc := 0xFFF }, .seeded 0⟩
    let d : Core := ⟨{ c.machine with pc := 0xFFFC }, .seeded 0⟩
    let m : Machine := { Machine.initial with
      v := Vector.replicate 16 0xFF
      calls := (CallStack.empty.push? 0x300).getD .empty }
    c.machine.fetch = 0x3000 ∧ (c.step .vx).1.machine.pc.toNat = 0x1003 ∧
      (d.after .vx 2).machine.pc.toNat = 0 ∧
      (d.after .vx 2).machine.memory = c.machine.memory ∧
      (∃ n, m.execute .vx (.seeded 0) (.decode 0xBFFF) = .ok n ∧ n.pc.toNat = 0x10FE) ∧
      (∃ n, m.execute .vx (.seeded 0) (.decode 0x00EE) = .ok n ∧ n.pc.toNat = 0x302) ∧
      ∃ n n', m.execute .vx (.seeded 0) (.decode 0x5013) = .ok n ∧
        m.execute .vx (.seeded 0) (.decode 0x9018) = .ok n' ∧ n.pc ≠ n'.pc := by
  intro c d m
  obtain ⟨hexecute, hstep, hopposite, _, hwalk⟩ := control_flow_law
  have hf : c.machine.fetch = 0x3000 := by decide +kernel
  have hr : (c.step .vx).2 = .ok c.upcoming := by decide +kernel
  have hc := hstep .vx c c.upcoming hr
  rw [hf] at hc
  have hw := hwalk .vx d (by decide) 2 (by decide)
  obtain ⟨word, wordAddress, hk⟩ := hw.kept
  refine ⟨hf, hc.skipped (.operand rfl rfl), hw.pc.trans (by decide), ?_, ?_, ?_, ?_⟩
  · rw [hk]
  · exact ⟨_, rfl, (hexecute .vx (.seeded 0) m _ 0xBFFF rfl).leapt rfl⟩
  · obtain ⟨address, hl, hn, _⟩ := (hexecute .vx (.seeded 0) m _ 0x00EE rfl).returned rfl
    have ha : [address] = [0x300] := hl.symm
    rw [List.singleton_inj.mp ha] at hn
    exact ⟨_, rfl, hn⟩
  · obtain ⟨n, n', hn, hn', hpc⟩ :=
      hopposite 0x5013 0x9018 (.registers rfl rfl rfl rfl) .vx (.seeded 0) m
    refine ⟨n, n', hn, hn', ?_⟩
    rcases hpc with ⟨h4, h2⟩ | ⟨h2, h4⟩
    · rw [h4, h2]
      decide
    · rw [h2, h4]
      decide

end Chip8
