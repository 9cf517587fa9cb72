import Chip8.Proofs.Faults
import Chip8.Proofs.Interference
import Chip8.Proofs.SpriteDraw

/-!
# Footprints of instructions

What a word leaves of a machine is told by its digits. Every part of a machine and its
random source has a few families of words that can change it, and all other words keep
it. Words without a meaning keep everything but the program counter, and so does whatever
is fetched past the end of memory.
-/

namespace Chip8

namespace Arithmetic

/-- Whether an operation leaves a flag. -/
def leavesFlag : Arithmetic → Bool
  | .copy => false
  | .or => false
  | .and => false
  | .xor => false
  | _ => true

/-- The flag of a result is there exactly if the operation leaves one. -/
theorem isSome_apply (operation : Arithmetic) (source : ShiftSource) (vx vy : UInt8) :
    (operation.apply source vx vy).2.isSome = operation.leavesFlag := by
  cases operation with
  | _ => rfl

/-- The last digits of the operations, and of those that leave a flag. -/
theorem digit_of_ofDigit : ∀ (n : Fin 16) (operation : Arithmetic),
    ofDigit n = some operation →
      (n ≤ 7 ∨ n = 0xE) ∧ (operation.leavesFlag = true → 4 ≤ n) := by
  have h : ∀ n : Fin 16, ∀ operation ∈ ofDigit n,
      (n ≤ 7 ∨ n = 0xE) ∧ (operation.leavesFlag = true → 4 ≤ n) := by decide
  exact h

/-- The other last digits select no operation. -/
theorem ofDigit_eq_none : ∀ n : Fin 16, 8 ≤ n ∧ n ≤ 0xD ∨ n = 0xF → ofDigit n = none := by
  decide

end Arithmetic

namespace Instruction

/-- Whether an instruction writes a register. -/
def writes (r : Fin 16) : Instruction → Bool
  | .load x _ => r == x
  | .increase x _ => r == x
  | .random x _ => r == x
  | .arithmetic operation x _ => r == x || (operation.leavesFlag && r == flagRegister)
  | .draw _ _ _ => r == flagRegister
  | _ => false

/-- The family of the words that stand for an instruction. Words without a meaning are
found in several families. -/
def family : Instruction → Fin 16
  | .clear => 0x0
  | .ret => 0x0
  | .jump _ => 0x1
  | .call _ => 0x2
  | .skipIs _ _ => 0x3
  | .skipIsNot _ _ => 0x4
  | .skipSame _ _ => 0x5
  | .load _ _ => 0x6
  | .increase _ _ => 0x7
  | .arithmetic _ _ _ => 0x8
  | .skipDifferent _ _ => 0x9
  | .loadIndex _ => 0xA
  | .jumpOffset _ => 0xB
  | .random _ _ => 0xC
  | .draw _ _ _ => 0xD
  | .idle => 0xF

/-- Whether an instruction changes the display. -/
def redraws : Instruction → Bool
  | .clear => true
  | .draw _ _ _ => true
  | _ => false

end Instruction

namespace Machine

variable {m n : Machine} {instruction : Instruction}

/-- A register that is not written holds what it held. -/
theorem get_setV_of_ne (m : Machine) {x r : Fin 16} (h : (r == x) = false) (byte : UInt8) :
    (m.setV x byte).v.get r = m.v.get r := by
  rw [m.get_setV x r byte, if_neg (beq_eq_false_iff_ne.mp h)]

/-- A register that gets neither a result nor its flag holds what it held. -/
theorem get_setResult_of_ne (m : Machine) {x r : Fin 16} {result : UInt8 × Option Bool}
    (h : (r == x || (result.2.isSome && r == flagRegister)) = false) :
    (m.setResult x result).v.get r = m.v.get r := by
  rcases result with ⟨byte, flag⟩
  obtain ⟨hx, hf⟩ := Bool.or_eq_false_iff.mp h
  cases flag with
  | none => exact m.get_setV_of_ne hx byte
  | some flag =>
    have hflag := (m.setV x byte).get_setV_of_ne hf (if flag then 1 else 0)
    exact hflag.trans (m.get_setV_of_ne hx byte)

/-- Whether an instruction is skipped or not, the registers and the display are kept. -/
theorem kept_skipIf (m : Machine) (skip : Bool) :
    (m.skipIf skip).v = m.v ∧ (m.skipIf skip).display = m.display := by
  cases skip with
  | _ => exact ⟨rfl, rfl⟩

/-- An instruction that is executed keeps the registers that it does not write. -/
theorem get_of_execute {source : ShiftSource} {random : Random.Source}
    (h : m.execute source random instruction = .ok n) {r : Fin 16}
    (hw : instruction.writes r = false) : n.v.get r = m.v.get r := by
  cases instruction with
  | ret | call =>
    rw [execute] at h
    split at h
    · cases h
      rfl
    · cases h
  | skipIs | skipIsNot | skipSame | skipDifferent =>
    cases h
    rw [(m.kept_skipIf _).1]
  | load x operand =>
    cases h
    exact m.get_setV_of_ne hw operand
  | increase x operand =>
    cases h
    exact m.get_setV_of_ne hw _
  | random x mask =>
    cases h
    exact m.get_setV_of_ne hw _
  | arithmetic operation x y =>
    cases h
    rw [Instruction.writes, ← operation.isSome_apply source m.v[x] m.v[y]] at hw
    exact m.get_setResult_of_ne hw
  | draw x y rows =>
    cases h
    exact get_setV_of_ne _ hw _
  | _ =>
    cases h
    rfl

/-- An instruction that is executed keeps the display unless it is one that changes it. -/
theorem display_of_execute {source : ShiftSource} {random : Random.Source}
    (h : m.execute source random instruction = .ok n) (hd : instruction.redraws = false) :
    n.display = m.display := by
  cases instruction with
  | ret | call =>
    rw [execute] at h
    split at h
    · cases h
      rfl
    · cases h
  | skipIs | skipIsNot | skipSame | skipDifferent =>
    cases h
    exact (m.kept_skipIf _).2
  | arithmetic operation x y =>
    cases h
    cases operation with
    | _ => rfl
  | clear | draw => cases hd
  | _ =>
    cases h
    rfl

/-- Only loads of an address reach the address register. -/
theorem Effect.index_eq (h : Effect m instruction n)
    (hi : ∀ target, instruction ≠ .loadIndex target) : n.i = m.i := by
  cases h with
  | @indexed target => exact absurd rfl (hi target)
  | _ => rfl

/-- A load of an address puts it into the address register. -/
theorem Effect.of_loadIndex {target : UInt16} (h : Effect m (.loadIndex target) n) :
    n.i = target := by
  cases h with
  | indexed => rfl
  | passed hn hr hl => cases hn

end Machine

namespace Word

variable {w : Word}

/-- The registers that the digits of a word let it write. -/
inductive Writes (w : Word) : Fin 16 → Prop
  /-- A load, an increase and a random instruction write their register. -/
  | operand (hw : w.opcode = 6 ∨ w.opcode = 7 ∨ w.opcode = 0xC) : Writes w w.x
  /-- An operation writes its first register. -/
  | result (hw : w.opcode = 8) (hn : w.n ≤ 7 ∨ w.n = 0xE) : Writes w w.x
  /-- From the fourth on, operations write the flag register, too. -/
  | flag (hw : w.opcode = 8) (hn : 4 ≤ w.n ∧ w.n ≤ 7 ∨ w.n = 0xE) : Writes w flagRegister
  /-- A draw writes the flag register. -/
  | collision (hw : w.opcode = 0xD) : Writes w flagRegister

/-- The words without a meaning. -/
inductive Unassigned (w : Word) : Prop
  /-- Of the words with a zero in front two only have a meaning. -/
  | zero (hw : w.opcode = 0) (hc : w ≠ 0x00E0) (hr : w ≠ 0x00EE)
  /-- Some last digits select no operation. -/
  | arithmetic (hw : w.opcode = 8) (hn : 8 ≤ w.n ∧ w.n ≤ 0xD ∨ w.n = 0xF)
  /-- The last two families have no meaning. -/
  | last (hw : w.opcode = 0xE ∨ w.opcode = 0xF)

end Word

namespace Instruction

variable {w : Word}

/-- With a zero in front, a word is looked at as a whole. -/
theorem decode_of_zero (h : w.opcode = 0) :
    decode w = if w = 0x00E0 then .clear else if w = 0x00EE then .ret else .idle := by
  rw [decode, h]
  rfl

/-- The last digit of an arithmetic word selects the operation. -/
theorem decode_of_arithmetic (h : w.opcode = 8) :
    decode w = match Arithmetic.ofDigit w.n with
      | some operation => .arithmetic operation w.x w.y
      | none => .idle := by
  rw [decode, h]
  rfl

/-- A word without a meaning tells the machine to do nothing. -/
theorem decode_of_unassigned (h : w.Unassigned) : decode w = .idle := by
  cases h with
  | zero hw hc hr => rw [decode_of_zero hw, if_neg hc, if_neg hr]
  | arithmetic hw hn => rw [decode_of_arithmetic hw, Arithmetic.ofDigit_eq_none w.n hn]
  | last hw =>
    rcases hw with hw | hw
    · rw [decode, hw]
      rfl
    · rw [decode, hw]
      rfl

/-- A word with a meaning is of the family of its instruction. -/
theorem opcode_of_decode {instruction : Instruction} (h : decode w = instruction)
    (hi : instruction ≠ .idle) : w.opcode = instruction.family := by
  subst h
  apply Fin.val_inj.mp
  revert hi
  unfold decode
  -- Every branch has its first digit in the context, or no meaning.
  repeat' split
  all_goals intro hi
  all_goals first
    | assumption
    | exact absurd rfl hi

/-- One word only clears the display. -/
theorem decode_eq_clear_iff : decode w = .clear ↔ w = 0x00E0 := by
  constructor
  · intro h
    have hw : w.opcode = 0 := opcode_of_decode h (by simp)
    rw [decode_of_zero hw] at h
    split at h
    · assumption
    · split at h
      · cases h
      · cases h
  · rintro rfl
    rfl

/-- The display is changed by one word and by the draws. -/
theorem word_of_redraws (h : (decode w).redraws = true) : w = 0x00E0 ∨ w.opcode = 0xD := by
  cases hi : decode w with
  | clear => exact Or.inl (decode_eq_clear_iff.mp hi)
  | draw x y rows => exact Or.inr (opcode_of_decode hi (by simp))
  | _ =>
    rw [hi] at h
    cases h

/-- The loads of an address load the one that the word names. -/
theorem decode_of_loadIndex (h : w.opcode = 0xA) : decode w = .loadIndex w.nnn := by
  rw [decode, h]
  rfl

/-- The random instructions are one family of words. -/
theorem opcode_of_takesByte (h : (decode w).takesByte = true) : w.opcode = 0xC := by
  obtain ⟨x, mask, hi⟩ := takesByte_iff.mp h
  exact opcode_of_decode hi (by simp)

/-- The registers that an instruction writes are told by the digits of its word. -/
theorem writes_of_decode {r : Fin 16} (h : (decode w).writes r = true) : w.Writes r := by
  cases hi : decode w with
  | load x operand =>
    have hw : w.opcode = 6 := opcode_of_decode hi (by simp)
    rw [decode, hw] at h
    cases beq_iff_eq.mp h
    exact .operand (Or.inl hw)
  | increase x operand =>
    have hw : w.opcode = 7 := opcode_of_decode hi (by simp)
    rw [decode, hw] at h
    cases beq_iff_eq.mp h
    exact .operand (Or.inr (Or.inl hw))
  | random x mask =>
    have hw : w.opcode = 0xC := opcode_of_decode hi (by simp)
    rw [decode, hw] at h
    cases beq_iff_eq.mp h
    exact .operand (Or.inr (Or.inr hw))
  | arithmetic operation x y =>
    have hw : w.opcode = 8 := opcode_of_decode hi (by simp)
    obtain ⟨ho, hx⟩ : Arithmetic.ofDigit w.n = some operation ∧ x = w.x := by
      rw [decode_of_arithmetic hw] at hi
      split at hi
      · rename_i ho
        cases hi
        exact ⟨ho, rfl⟩
      · cases hi
    obtain ⟨hn, hf⟩ := Arithmetic.digit_of_ofDigit w.n operation ho
    rw [hi, writes, Bool.or_eq_true, Bool.and_eq_true, hx] at h
    rcases h with hr | ⟨hl, hr⟩
    · cases beq_iff_eq.mp hr
      exact .result hw hn
    · cases beq_iff_eq.mp hr
      exact .flag hw (hn.imp (fun hs => ⟨hf hl, hs⟩) id)
  | draw x y rows =>
    have hw : w.opcode = 0xD := opcode_of_decode hi (by simp)
    rw [hi] at h
    cases beq_iff_eq.mp h
    exact .collision hw
  | _ =>
    rw [hi] at h
    cases h

end Instruction

/-- What a word leaves of a machine and its random source, and what it can change. -/
structure Core.Footprint (w : Word) (c d : Core) : Prop where
  /-- The word and its address have been fetched. -/
  fetched : d.machine.word = w ∧ d.machine.wordAddress = c.machine.pc
  /-- Memory and the recorded length are kept. -/
  loaded : d.machine.memory = c.machine.memory ∧
    d.machine.programLength = c.machine.programLength
  /-- The display is kept by all words but one and the draws. -/
  display : w ≠ 0x00E0 → w.opcode ≠ 0xD → d.machine.display = c.machine.display
  /-- That one word turns off every cell. -/
  cleared : w = 0x00E0 → ∀ px py, d.machine.display.pixel px py = false
  /-- The call stack is kept by all words but calls and the return. -/
  calls : w.opcode ≠ 2 → w ≠ 0x00EE → d.machine.calls = c.machine.calls
  /-- A call makes one more slot live, which is the only one that it writes. -/
  called : w.opcode = 2 → d.machine.calls.depth = c.machine.calls.depth + 1 ∧
    ∀ j : Nat, j ≠ c.machine.calls.depth →
      d.machine.calls.slots[j]? = c.machine.calls.slots[j]?
  /-- A return makes one slot less live and writes none. -/
  returned : w = 0x00EE → c.machine.calls.depth = d.machine.calls.depth + 1 ∧
    d.machine.calls.slots = c.machine.calls.slots
  /-- The address register is kept by all words but the loads of an address. -/
  index : w.opcode ≠ 0xA → d.machine.i = c.machine.i
  /-- A load of an address puts it there. -/
  indexed : w.opcode = 0xA → d.machine.i = w.nnn
  /-- The registers are kept that the digits of the word do not let it write. -/
  registers : ∀ r : Fin 16, ¬w.Writes r → d.machine.v.get r = c.machine.v.get r
  /-- The random source is kept by all words but the random instructions. -/
  random : w.opcode ≠ 0xC → d.random = c.random

namespace Core

variable {source : ShiftSource} {c : Core}

/-- A step that answers a record has executed the instruction on the machine with its word
fetched. -/
theorem execute_of_step {record : Retired} (h : (c.step source).2 = .ok record) :
    c.machine.fetched.execute source c.random (.decode c.machine.fetch) =
      .ok (c.step source).1.machine := by
  unfold step at h ⊢
  dsimp only at h ⊢
  show c.machine.fetched.execute source c.random (.decode c.upcoming.word) = _
  cases he : c.machine.fetched.execute source c.random (.decode c.upcoming.word) with
  | ok m => rfl
  | error error =>
    rw [he] at h
    cases h

/-- A step that answers a record leaves the footprint of the fetched word. -/
theorem footprint_of_step {record : Retired} (h : (c.step source).2 = .ok record) :
    Footprint c.machine.fetch c (c.step source).1 := by
  have hx := execute_of_step h
  have he := Machine.effect_of_execute hx
  -- One goal for each part: display, call stack, address register, registers, random source.
  refine ⟨he.word_eq, he.loaded_eq, ?_, ?_, ?_, ?_, ?_, ?_, ?_, ?_, ?_⟩
  · intro hc hd
    apply Machine.display_of_execute hx
    rw [Bool.eq_false_iff]
    intro hr
    rcases Instruction.word_of_redraws hr with hw | hw
    · exact hc hw
    · exact hd hw
  · intro hw px py
    rw [Instruction.decode_eq_clear_iff.mpr hw] at hx
    rw [← (Except.ok.inj hx)]
    exact Framebuffer.pixel_blank px py
  · intro hc hr
    refine he.calls_eq (fun hi => hr (Instruction.decode_eq_ret_iff.mp hi)) ?_
    rw [Bool.eq_false_iff]
    intro hi
    exact hc (Instruction.isCall_decode_iff.mp hi)
  · intro hw
    obtain ⟨calls, hp, hn⟩ := he.of_call (Instruction.isCall_decode_iff.mpr hw)
    obtain ⟨hd, hs⟩ := CallStack.slots_push? hp
    rw [hn]
    refine ⟨hd, ?_⟩
    intro j hj
    exact (hs j).trans (if_neg hj)
  · intro hw
    rw [Instruction.decode_eq_ret_iff.mpr hw] at he
    obtain ⟨address, calls, hp, hn, _⟩ := he.of_ret
    obtain ⟨hd, hs, _⟩ := CallStack.slots_pop? hp
    rw [hn]
    exact ⟨hd, hs⟩
  · intro hw
    apply he.index_eq
    intro target hi
    exact hw (Instruction.opcode_of_decode hi (by simp))
  · intro hw
    rw [Instruction.decode_of_loadIndex hw] at he
    exact he.of_loadIndex
  · intro r hr
    apply Machine.get_of_execute hx
    rw [Bool.eq_false_iff]
    intro hw
    exact hr (Instruction.writes_of_decode hw)
  · intro hw
    have ht : ¬c.machine.instruction.takesByte = true :=
      fun hi => hw (Instruction.opcode_of_takesByte hi)
    rw [random_step, if_neg ht]

/-- An instruction that does nothing goes on with the following one. -/
theorem step_of_idle (h : c.machine.instruction = .idle) (source : ShiftSource) :
    c.step source = (⟨c.machine.fetched.advance, c.random⟩, .ok c.upcoming) := by
  have hi : Instruction.decode c.upcoming.word = .idle := h
  rw [step, hi]
  rfl

/-- The footprint of every word: a step that retires has fetched the word and changes, but
for the program counter, only what the family of the word stands for. A word without a
meaning, and whatever is fetched past the end of memory, changes nothing else at all and
goes on with the following word. -/
theorem instruction_footprint (source : ShiftSource) (c : Core) :
    (∀ record, (c.step source).2 = .ok record →
      Footprint c.machine.fetch c (c.step source).1) ∧
    (c.machine.fetch.Unassigned ∨ memorySize ≤ c.machine.pc.toNat →
      c.step source = (⟨{ c.machine with
        word := c.machine.fetch
        wordAddress := c.machine.pc
        pc := c.machine.pc + 2 }, c.random⟩, .ok c.upcoming)) := by
  refine ⟨fun record h => footprint_of_step h, ?_⟩
  rintro (hw | hp)
  · exact step_of_idle (Instruction.decode_of_unassigned hw) source
  · exact step_of_idle (Machine.instruction_of_pastEnd (decide_eq_true hp)) source

/-- An increase of the flag register that overflows changes this register and no other
one; an arithmetic word whose last digit selects nothing changes nothing; and from the
last address there is, far past the end of memory, the machine goes on at the second byte
of memory. -/
theorem instruction_footprint_of_overflow :
    let machine := { Machine.initial with v := Vector.replicate 16 9 }
    let increase : Core := ⟨{ machine with
      memory := Memory.zero.overlay 0x200 [0x7F, 0xFF] }, .seeded 0⟩
    let spare : Core := ⟨{ machine with
      memory := Memory.zero.overlay 0x200 [0x81, 0x28] }, .seeded 0⟩
    let last : Core := ⟨{ machine with pc := 0xFFFF }, .seeded 0⟩
    Footprint 0x7FFF increase (increase.step .vx).1 ∧
      (increase.step .vx).1.machine.v.get flagRegister = 8 ∧
      (increase.step .vx).1.machine.v.get 0 = 9 ∧
      spare.step .vx = (⟨{ spare.machine with word := 0x8128, wordAddress := 0x200, pc := 0x202 },
        spare.random⟩, .ok spare.upcoming) ∧
      last.step .vx = (⟨{ last.machine with word := 0, wordAddress := 0xFFFF, pc := 1 },
        last.random⟩, .ok last.upcoming) := by
  intro machine increase spare last
  have hi : (increase.step .vx).2 = .ok increase.upcoming ∧ increase.machine.fetch = 0x7FFF := by
    decide +kernel
  have hf : Footprint 0x7FFF increase (increase.step .vx).1 := by
    rw [← hi.2]
    exact (instruction_footprint .vx increase).1 increase.upcoming hi.1
  have hv : (increase.step .vx).1.machine.v.get flagRegister = 8 := by decide +kernel
  have hr : ¬Word.Writes 0x7FFF 0 := by
    intro hw
    cases hw
  have hn : spare.machine.fetch = 0x8128 := by decide +kernel
  have hl : last.machine.fetch = 0 := Machine.fetch_of_pastEnd (by decide)
  have hw : spare.machine.fetch.Unassigned := by
    rw [hn]
    exact .arithmetic rfl (by decide)
  have hs := (instruction_footprint .vx spare).2 (Or.inl hw)
  have ht := (instruction_footprint .vx last).2 (Or.inr (by decide))
  rw [hn] at hs
  have hp : last.machine.pc + 2 = 1 := by decide
  rw [hl, hp] at ht
  exact ⟨hf, hv, hf.registers 0 hr, hs, ht⟩

end Core

end Chip8
