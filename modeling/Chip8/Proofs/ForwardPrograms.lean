import Chip8.Proofs.Bounds
import Chip8.Proofs.BudgetSlices
import Chip8.Proofs.Completion
import Chip8.Proofs.Footprint

/-!
# Programs that lead forward

A program that neither calls nor returns and whose jumps all lead beyond themselves comes to
an end: every instruction moves the program counter further on, and memory, on which this
depends, is written by no instruction. The number of instructions is bounded by the number
of addresses, and by half of it where no jump can make the program counter odd.
-/

namespace Chip8

/-- A word that leads forward from an address at which it stands. -/
structure Word.LeadsForward (w : Word) (address : Nat) : Prop where
  /-- It is no call. -/
  no_call : w.opcode ≠ 2
  /-- It is no return. -/
  no_return : w ≠ 0x00EE
  /-- As a jump, with an offset or without, it names an address beyond its own. -/
  beyond : w.opcode = 1 ∨ w.opcode = 0xB → address < w.nnn.toNat

/-- Whether a word leads forward can be computed. -/
instance (w : Word) (address : Nat) : Decidable (w.LeadsForward address) :=
  decidable_of_iff
    (w.opcode ≠ 2 ∧ w ≠ 0x00EE ∧ (w.opcode = 1 ∨ w.opcode = 0xB → address < w.nnn.toNat))
    ⟨fun ⟨hc, hr, hb⟩ => ⟨hc, hr, hb⟩, fun h => ⟨h.no_call, h.no_return, h.beyond⟩⟩

namespace Memory

/-- The word at an address, high byte first. -/
def wordAt (memory : Memory) (address : Nat) : Word :=
  Word.ofBytes (memory.byteAt address) (memory.byteAt (address + 1))

/-- From the origin of programs on, every word leads forward, also where it starts at an odd
address. -/
def LeadsForward (memory : Memory) : Prop :=
  ∀ a, programOrigin.toNat ≤ a → a < memorySize → (memory.wordAt a).LeadsForward a

/-- From the origin of programs on, no word at an even address is a jump. -/
def KeepsEven (memory : Memory) : Prop :=
  ∀ a, programOrigin.toNat ≤ a → a < memorySize → a % 2 = 0 →
    (memory.wordAt a).opcode ≠ 1 ∧ (memory.wordAt a).opcode ≠ 0xB

/-- Memory before any load holds words of zeros only. -/
theorem wordAt_zero (address : Nat) : zero.wordAt address = 0 := by
  have hb : ∀ a, zero.byteAt a = 0 := by
    intro a
    rw [byteAt, zero, Vector.getElem?_replicate]
    split
    · rfl
    · rfl
  rw [wordAt, hb, hb]
  rfl

/-- The word that a program puts at a distance from the origin. -/
def programWord (program : List UInt8) (i : Nat) : Word :=
  Word.ofBytes (program[i]?.getD 0) (program[i + 1]?.getD 0)

/-- A program that fits is read back from the origin on, with zeros behind it. -/
theorem wordAt_overlay_zero {program : List UInt8} (h : program.length ≤ 3584) (i : Nat) :
    (zero.overlay programOrigin.toNat program).wordAt (programOrigin.toNat + i) =
      programWord program i := by
  have ho : programOrigin.toNat = 512 := rfl
  have hm : memorySize = 4096 := rfl
  have hb : ∀ j, (zero.overlay programOrigin.toNat program).byteAt (programOrigin.toNat + j) =
      program[j]?.getD 0 := by
    intro j
    by_cases hj : programOrigin.toNat + j < memorySize
    · have hz : zero[programOrigin.toNat + j] = 0 := Vector.getElem_replicate hj
      rw [byteAt, Vector.getElem?_eq_getElem hj, getElem_overlay, hz, if_pos (by omega),
        Nat.add_sub_cancel_left]
      rfl
    · rw [byteAt, Vector.getElem?_eq_none (by omega), List.getElem?_eq_none (by omega)]
  rw [wordAt, hb i, Nat.add_assoc, hb (i + 1)]
  rfl

/-- Behind a program there are words of zeros only. -/
theorem programWord_of_length_le {program : List UInt8} {i : Nat} (h : program.length ≤ i) :
    programWord program i = 0 := by
  rw [programWord, List.getElem?_eq_none h, List.getElem?_eq_none (by omega)]
  rfl

/-- A program leads forward if its own words do. -/
theorem leadsForward_of_program (program : List UInt8) (h : program.length ≤ 3584)
    (hw : ∀ i < program.length,
      (programWord program i).LeadsForward (programOrigin.toNat + i)) :
    (zero.overlay programOrigin.toNat program).LeadsForward := by
  intro a ha _
  obtain ⟨i, rfl⟩ := Nat.exists_eq_add_of_le ha
  rw [wordAt_overlay_zero h i]
  by_cases hi : i < program.length
  · exact hw i hi
  · rw [programWord_of_length_le (by omega)]
    refine ⟨by decide, by decide, ?_⟩
    rintro (h1 | hb)
    · cases h1
    · cases hb

end Memory

namespace Instruction

/-- Whether an instruction goes neither on with the following one nor with the one after
it. -/
def leaps : Instruction → Bool
  | .ret => true
  | .jump _ => true
  | .call _ => true
  | .jumpOffset _ => true
  | _ => false

end Instruction

namespace Machine

variable {m n : Machine} {instruction : Instruction}

/-- Whether an instruction is a skip whose condition holds. -/
def skips (m : Machine) : Instruction → Bool
  | .skipIs x operand => m.v.get x == operand
  | .skipIsNot x operand => m.v.get x != operand
  | .skipSame x y => m.v.get x == m.v.get y
  | .skipDifferent x y => m.v.get x != m.v.get y
  | _ => false

/-- A skip moves the program counter twice as far if its condition holds. -/
theorem pc_skipIf (m : Machine) (skip : Bool) :
    (m.skipIf skip).pc = m.pc + if skip then 4 else 2 := by
  cases skip with
  | _ => rfl

/-- An instruction that leaps nowhere goes on with the following instruction, or with the
one after it if it is a skip whose condition holds. -/
theorem pc_of_execute {source : ShiftSource} {random : Random.Source}
    (h : m.execute source random instruction = .ok n) (hl : instruction.leaps = false) :
    n.pc = m.pc + if m.skips instruction then 4 else 2 := by
  cases instruction with
  | ret | jump | call | jumpOffset => cases hl
  | skipIs | skipIsNot | skipSame | skipDifferent =>
    cases h
    exact m.pc_skipIf _
  | arithmetic operation x y =>
    cases h
    cases operation with
    | _ => rfl
  | _ =>
    cases h
    rfl

end Machine

namespace Engine

variable {e : Engine} {n k : Nat}

/-- An execution that leaves memory may have an instruction before it that retires. -/
theorem Halts.behind (hp : e.machine.pastEnd = false) (hf : e.fault? = none)
    (hn : e.step.engine.Halts n) : e.Halts (1 + n) where
  clear := by
    have h1 : e.Clear 1 := by
      intro k hk
      rw [Nat.lt_one_iff.mp hk]
      exact ⟨hp, hf⟩
    exact h1.add hn.clear
  pastEnd := by
    rw [after_add]
    exact hn.pastEnd

/-- A run that is never suspended is over where plain execution leaves memory. -/
theorem resume_toCompletion_of_halts (hr : e.isRunning = true) (hn : e.Halts n) {limit : Nat}
    (hl : n < limit) : ∃ r, e.resume .toCompletion limit () = some r ∧
      r.toReply = ⟨((e.after n).finish none).1,
        e.dispatches n ++ .event (.programHalted n) :: ((e.after n).finish none).2,
        .ok (.halted n)⟩ := by
  cases hx : e.resume .toCompletion limit () with
  | none =>
    obtain ⟨_, q, hq, hk⟩ := reaches_of_resume hx
    have hc := ((Progress.follows_start e ()).reaches hq).clear
    have hle : q.executed ≤ n := hn.ends.le hc
    omega
  | some r =>
    refine ⟨r, rfl, ?_⟩
    rw [resume_of_running hr] at hx
    obtain ⟨q, hq, ht⟩ := Progress.turn_of_proceed hx
    have hg := (Progress.follows_start e ()).reaches hq
    cases ht with
    | halted hp =>
      rw [hg.engine] at hp
      have he : n = q.executed := (hn.ends.unique (Halts.ends ⟨hg.clear, hp⟩)).1
      rw [he]
      exact hg.halt_toReply
    | refused hp hb => cases hb
    | failed hp hb hf =>
      rw [hg.engine, machine_after] at hp
      rw [hg.engine, fault?_after] at hf
      have he := (hn.ends.unique (.aborted hg.clear hp hf)).2.1
      cases he
    | yielded hp hb hf hi hy => cases hy

/-- An engine whose program counter is in a memory that leads forward, or behind it. -/
structure Forward (e : Engine) : Prop where
  /-- Its memory leads forward. -/
  memory : e.machine.memory.LeadsForward
  /-- Its program counter has come from the origin. -/
  origin : programOrigin.toNat ≤ e.machine.pc.toNat

/-- An engine that goes forward and is at an even address, and has come there without
jumps. -/
structure ForwardEven (e : Engine) : Prop extends Forward e where
  /-- Its memory has no jumps at even addresses. -/
  keeps : e.machine.memory.KeepsEven
  /-- Its program counter is even. -/
  even : e.machine.pc.toNat % 2 = 0

/-- Inside memory, an engine that goes forward neither calls nor returns. -/
theorem Forward.instruction (h : e.Forward) (hp : e.machine.pastEnd = false) :
    e.machine.instruction ≠ .ret ∧ e.machine.instruction.isCall = false := by
  have hi : e.machine.pc.toNat < memorySize := Machine.pc_lt_of_inside hp
  refine ⟨?_, ?_⟩
  · intro hr
    exact (h.memory _ h.origin hi).no_return (Instruction.decode_eq_ret_iff.mp hr)
  · rw [Bool.eq_false_iff]
    intro hc
    exact (h.memory _ h.origin hi).no_call (Instruction.isCall_decode_iff.mp hc)

/-- Inside memory, a jump of an engine that goes forward leads beyond itself. -/
theorem Forward.beyond (h : e.Forward) (hp : e.machine.pastEnd = false) {target : UInt16}
    (ht : e.machine.instruction = .jump target ∨ e.machine.instruction = .jumpOffset target) :
    e.machine.pc.toNat < target.toNat ∧ target.toNat < memorySize := by
  have hi : e.machine.pc.toNat < memorySize := Machine.pc_lt_of_inside hp
  have hn : e.machine.instruction.target? = some target := by
    rcases ht with ht | ht
    · rw [ht]
      rfl
    · rw [ht]
      rfl
  have hw : e.machine.fetch.opcode = 1 ∨ e.machine.fetch.opcode = 0xB := by
    refine ht.imp ?_ ?_
    · intro hj
      exact Instruction.opcode_of_decode hj (by simp)
    · intro hj
      exact Instruction.opcode_of_decode hj (by simp)
  refine ⟨?_, Instruction.toNat_target_lt hn⟩
  rw [Instruction.target?_decode hn]
  exact (h.memory _ h.origin hi).beyond hw

/-- Inside memory, an engine that goes forward retires its instruction, which moves the
program counter further on. -/
theorem Forward.step (h : e.Forward) (hp : e.machine.pastEnd = false) :
    e.fault? = none ∧ e.machine.pc.toNat + 1 ≤ e.step.engine.machine.pc.toNat := by
  have hi : e.machine.pc.toNat < memorySize := Machine.pc_lt_of_inside hp
  obtain ⟨hr, hc⟩ := h.instruction hp
  have hf : e.fault? = none := fault?_eq_none hr hc
  have hj : ∀ target, e.machine.instruction = .jump target ∨
      e.machine.instruction = .jumpOffset target →
        e.machine.pc.toNat < target.toNat ∧ target.toNat < memorySize :=
    fun target ht => h.beyond hp ht
  have he := effect_of_retires hf
  refine ⟨hf, ?_⟩
  generalize e.step.engine.machine = n at he
  generalize e.machine.instruction = instruction at he hr hc hj
  cases he with
  | returned => exact absurd rfl hr
  | called => cases hc
  | @jumped target => exact (hj target (Or.inl rfl)).1
  | @leapt target =>
    obtain ⟨hb, hl⟩ := hj target (Or.inr rfl)
    have hs := (Machine.toNat_add_byte hl (e.machine.v.get 0)).1
    show e.machine.pc.toNat + 1 ≤ (target + (e.machine.v.get 0).toUInt16).toNat
    omega
  | indexed =>
    have hs := (Machine.toNat_add_length hi (Or.inl rfl)).1
    show e.machine.pc.toNat + 1 ≤ (e.machine.pc + 2).toNat
    rw [hs]
    exact Nat.add_le_add_left (by decide) _
  | @passed _ _ _ length hn hd hl =>
    have hs := (Machine.toNat_add_length hi hl).1
    have h1 : 1 ≤ length.toNat := by
      rcases hl with rfl | rfl
      · decide
      · decide
    show e.machine.pc.toNat + 1 ≤ (e.machine.pc + length).toNat
    omega

/-- Inside memory, an engine that is at an even address and has no jumps there leaps
nowhere. -/
theorem ForwardEven.leaps (h : e.ForwardEven) (hp : e.machine.pastEnd = false) :
    e.machine.instruction.leaps = false := by
  have hj := h.keeps _ h.origin (Machine.pc_lt_of_inside hp) h.even
  obtain ⟨hr, hc⟩ := h.toForward.instruction hp
  cases hi : e.machine.instruction with
  | ret => exact absurd hi hr
  | call target =>
    rw [hi] at hc
    cases hc
  | jump target => exact absurd (Instruction.opcode_of_decode hi (by simp)) hj.1
  | jumpOffset target => exact absurd (Instruction.opcode_of_decode hi (by simp)) hj.2
  | _ => rfl

/-- Inside memory, such an engine goes on with the following instruction, or with the one
after it if it skips. -/
theorem ForwardEven.pc_step (h : e.ForwardEven) (hp : e.machine.pastEnd = false) :
    e.step.engine.machine.pc.toNat =
      e.machine.pc.toNat + if e.machine.skips e.machine.instruction then 4 else 2 := by
  have hi : e.machine.pc.toNat < memorySize := Machine.pc_lt_of_inside hp
  have hs := Core.step_of_retires (h.toForward.step hp).1
  have hx : e.step.engine.machine.pc =
      e.machine.pc + if e.machine.skips e.machine.instruction then 4 else 2 := by
    have hn := Machine.pc_of_execute (Core.execute_of_step hs) (h.leaps hp)
    rw [machine_step]
    exact hn
  rw [hx]
  cases e.machine.skips e.machine.instruction with
  | false => exact (Machine.toNat_add_length hi (Or.inl rfl)).1
  | true => exact (Machine.toNat_add_length hi (Or.inr rfl)).1

/-- While an engine is in memory and something holds of it, its instructions retire, what
holds is kept, and each of them moves the program counter by a stride at least. -/
structure Ascends (stride : Nat) (P : Engine → Prop) : Prop where
  /-- Instructions retire. -/
  retires : ∀ {e}, P e → e.machine.pastEnd = false → e.fault? = none
  /-- What holds is kept. -/
  keeps : ∀ {e}, P e → e.machine.pastEnd = false → P e.step.engine
  /-- The program counter moves on. -/
  gains : ∀ {e}, P e → e.machine.pastEnd = false →
    e.machine.pc.toNat + stride ≤ e.step.engine.machine.pc.toNat

/-- An engine that goes forward moves by at least one address. -/
theorem ascends_forward : Ascends 1 Forward where
  retires h hp := (h.step hp).1
  keeps h hp := by
    have ho := h.origin
    have hg := (h.step hp).2
    refine ⟨?_, by omega⟩
    rw [(loaded_step _).1]
    exact h.memory
  gains h hp := (h.step hp).2

/-- An engine that goes forward without jumps moves by at least two addresses and stays at
even ones. -/
theorem ascends_forwardEven : Ascends 2 ForwardEven where
  retires h hp := (h.toForward.step hp).1
  keeps h hp := by
    have he := h.even
    have hs := h.pc_step hp
    refine ⟨ascends_forward.keeps h.toForward hp, ?_, ?_⟩
    · rw [(loaded_step _).1]
      exact h.keeps
    · split at hs
      · omega
      · omega
  gains h hp := by
    have hs := h.pc_step hp
    split at hs
    · omega
    · omega

namespace Ascends

variable {stride : Nat} {P : Engine → Prop}

/-- What holds is kept for as long as plain execution stays in memory. -/
theorem after (h : Ascends stride P) (he : P e) (hc : e.Clear n) : P (e.after n) := by
  induction n with
  | zero => exact he
  | succ n ih =>
    have hp : (e.after n).machine.pastEnd = false := by
      rw [machine_after]
      exact (hc n (Nat.lt_succ_self n)).1
    exact h.keeps (ih fun k hk => hc k (Nat.lt_succ_of_lt hk)) hp

/-- An ascending engine leaves memory, and its instructions on the way are a stride apart.
The induction is on how far the end of memory is away. -/
theorem halts (h : Ascends stride P) (hs : 1 ≤ stride) (he : P e) :
    ∃ n, e.Halts n ∧ ∀ k < n, e.machine.pc.toNat + stride * k < memorySize := by
  induction hd : memorySize - e.machine.pc.toNat using Nat.strongRecOn generalizing e with
  | ind left ih =>
    cases hp : e.machine.pastEnd with
    | true => exact ⟨0, ⟨fun k hk => absurd hk (Nat.not_lt_zero k), hp⟩, by simp⟩
    | false =>
      have hi : e.machine.pc.toNat < memorySize := Machine.pc_lt_of_inside hp
      have hg := h.gains he hp
      obtain ⟨n, hn, hk⟩ := ih _ (by omega) (h.keeps he hp) rfl
      refine ⟨1 + n, ?_, ?_⟩
      · exact Halts.behind hp (h.retires he hp) hn
      · intro k hl
        cases k with
        | zero => exact hi
        | succ k =>
          have hx := hk k (by omega)
          rw [Nat.mul_succ]
          omega

end Ascends

/-- Where nothing is skipped, every instruction moves the program counter by two. -/
theorem ForwardEven.pc_after (h : e.ForwardEven) (hc : e.Clear n)
    (hs : ∀ k < n, (e.after k).machine.skips (e.after k).machine.instruction = false) :
    (e.after n).machine.pc.toNat = e.machine.pc.toNat + 2 * n := by
  induction n with
  | zero => rfl
  | succ n ih =>
    have hl : e.Clear n := fun k hk => hc k (Nat.lt_succ_of_lt hk)
    have hp : (e.after n).machine.pastEnd = false := by
      rw [machine_after]
      exact (hc n (Nat.lt_succ_self n)).1
    have hx := (ascends_forwardEven.after h hl).pc_step hp
    have hn := ih hl fun k hk => hs k (Nat.lt_succ_of_lt hk)
    rw [hs n (Nat.lt_succ_self n), if_neg Bool.false_ne_true] at hx
    show (e.after n).step.engine.machine.pc.toNat = _
    omega

/-- A run of a program that fits is in progress at the origin, with the completion owed. -/
theorem run_of_fits (e : Engine) {program : List UInt8}
    (hl : programOrigin.toNat + program.length ≤ memorySize) (ticket : Ticket) :
    (e.run program ticket).value = .ok () ∧ (e.run program ticket).engine.isRunning = true ∧
      (e.run program ticket).engine.machine.pc = programOrigin ∧
      (e.run program ticket).engine.completion = some ticket ∧
      Notice.completions (e.run program ticket).notices = [] := by
  have hm := Machine.load_of_fits (m := .initial) (l := ⟨programOrigin, program⟩) hl
  rw [run_eq, hm]
  exact ⟨rfl, rfl, rfl, rfl, rfl⟩

end Engine

/-- A program that leads forward completes: whatever the config and the random source, its
run, if it is never suspended, is over after some number of instructions, no more than there
are addresses for programs, and its completion is told once and without an error. Without
jumps at even addresses the number is at most half of that, and exactly half if nothing is
skipped. -/
theorem forward_programs_complete (e : Engine) {program : List UInt8} (ticket : Ticket)
    (hl : program.length ≤ 3584)
    (hf : (e.run program ticket).engine.machine.memory.LeadsForward) :
    let started := (e.run program ticket).engine
    (e.run program ticket).value = .ok () ∧ ∃ n, 1 ≤ n ∧ n ≤ 3584 ∧
      (∀ limit, n < limit → ∃ r, started.resume .toCompletion limit () = some r ∧
        r.value = .ok (.halted n) ∧ r.engine.lifecycle = .halted ∧
        Notice.completions ((e.run program ticket).notices ++ r.notices) = [(ticket, none)]) ∧
      (started.machine.memory.KeepsEven → n ≤ 1792 ∧
        ((∀ k < n, (started.after k).machine.skips (started.after k).machine.instruction =
          false) → n = 1792)) := by
  intro started
  have hfit : programOrigin.toNat + program.length ≤ memorySize := by
    have ho : programOrigin.toNat = 512 := rfl
    have hm : memorySize = 4096 := rfl
    omega
  obtain ⟨hv, hr, hp, hc, hn⟩ := e.run_of_fits hfit ticket
  have hpc : started.machine.pc.toNat = 512 := congrArg UInt16.toNat hp
  have hm : memorySize = 4096 := rfl
  have hg : started.Forward := ⟨hf, Nat.le_of_eq hpc.symm⟩
  obtain ⟨n, hh, hk⟩ := Engine.ascends_forward.halts (Nat.le_refl 1) hg
  have hpos : 1 ≤ n := by
    have hi : started.machine.pastEnd = false := by
      rw [Machine.pastEnd, hpc]
      rfl
    exact hh.lt_of_inside (m := 0) (fun k hz => absurd hz (Nat.not_lt_zero k)) hi
  have hmost := hk (n - 1) (by omega)
  refine ⟨hv, n, hpos, by omega, ?_, ?_⟩
  · intro limit hlimit
    obtain ⟨r, hx, he⟩ := Engine.resume_toCompletion_of_halts hr hh hlimit
    refine ⟨r, hx, congrArg Reply.value he, congrArg (fun x => x.engine.lifecycle) he, ?_⟩
    have hno : r.notices = _ := congrArg Reply.notices he
    have hcn : (started.after n).completion = some ticket :=
      (started.completion_after n).trans hc
    rw [hno, Notice.completions_append, hn, Notice.completions_append,
      Engine.completions_dispatches]
    show Notice.completions ((started.after n).finish none).2 = _
    rw [Engine.completions_finish, hcn]
    rfl
  · intro hke
    have hev : started.ForwardEven := ⟨hg, hke, by rw [hpc]⟩
    obtain ⟨m, hme, hmk⟩ := Engine.ascends_forwardEven.halts (by decide) hev
    have hnm : n = m := (hh.ends.unique hme.ends).1
    subst hnm
    have hhalf := hmk (n - 1) (by omega)
    refine ⟨by omega, ?_⟩
    intro hs
    have hend := hev.pc_after hh.clear hs
    have hout : memorySize ≤ (started.after n).machine.pc.toNat := of_decide_eq_true hh.pastEnd
    omega

/-- A program whose skip passes over an instruction and whose jump leads to the last byte of
memory completes. So does the program without instructions, which goes through zeros only
and therefore executes exactly one instruction for every two addresses. -/
theorem forward_programs_complete_of_skip :
    ∃ (e : Engine) (program : List UInt8), program.length = 6 ∧
      (e.run program 7).engine.machine.memory.LeadsForward ∧
      (∃ r n, n ≤ 3584 ∧ (e.run program 7).engine.resume .toCompletion 3585 () = some r ∧
        r.value = .ok (.halted n) ∧
        Notice.completions ((e.run program 7).notices ++ r.notices) = [(7, none)]) ∧
      (e.run [] 7).engine.machine.memory.LeadsForward ∧
      (e.run [] 7).engine.machine.memory.KeepsEven ∧
      ∃ r, (e.run [] 7).engine.resume .toCompletion 3585 () = some r ∧
        r.value = .ok (.halted 1792) := by
  let e : Engine := .new .standard (Vector.replicate 8 0)
  let program : List UInt8 := [0x30, 0x00, 0x60, 0x01, 0xBF, 0xFF]
  have hf : (e.run program 7).engine.machine.memory.LeadsForward :=
    Memory.leadsForward_of_program program (by decide) (by decide)
  have hz : (e.run [] 7).engine.machine.memory.LeadsForward :=
    Memory.leadsForward_of_program [] (by decide) (by decide)
  have hw : (e.run [] 7).engine.machine.memory = .zero := rfl
  have hk : (e.run [] 7).engine.machine.memory.KeepsEven := by
    intro a _ _ _
    rw [hw, Memory.wordAt_zero]
    decide
  obtain ⟨_, n, _, hn, hr, _⟩ := forward_programs_complete e 7 (by decide) hf
  obtain ⟨_, m, _, hm, hq, hs⟩ := forward_programs_complete e 7 (by decide) hz
  obtain ⟨r, hx, hv, _, hc⟩ := hr 3585 (by omega)
  obtain ⟨q, hy, hu, _⟩ := hq 3585 (by omega)
  refine ⟨e, program, rfl, hf, ⟨r, n, hn, hx, hv, hc⟩, hz, hk, q, hy, ?_⟩
  -- A word of zeros skips nothing.
  rw [hu, (hs hk).2 ?_]
  intro k _
  have hi : ((e.run [] 7).engine.after k).machine.fetch = 0 := by
    show ((e.run [] 7).engine.after k).machine.memory.wordAt _ = 0
    rw [((e.run [] 7).engine.loaded_after k).1, hw, Memory.wordAt_zero]
  rw [Machine.instruction, hi]
  rfl

end Chip8
