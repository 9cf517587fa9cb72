import Chip8.Proofs.Draws
import Chip8.Proofs.Loads
import Chip8.Proofs.Slicing

/-!
# Interference of the config

A program can tell what its config is by random instructions and by shifts only. Two runs
of one program under two configs with seeds are seen alike for as long as the first of
them executes no instruction by which the configs could be told apart: a random
instruction with a mask other than zero if the seeds differ, and a shift between two
registers if the shift sources differ.
-/

namespace Chip8

namespace Instruction

/-- Whether an instruction does the same with every random byte. -/
def ignoresRandom : Instruction → Bool
  | .random _ mask => decide (mask = 0)
  | _ => true

/-- Whether an instruction does the same whichever register shifts read. -/
def ignoresShiftSource : Instruction → Bool
  | .arithmetic .shiftRight x y => decide (x = y)
  | .arithmetic .shiftLeft x y => decide (x = y)
  | _ => true

end Instruction

namespace Arithmetic

/-- Between a register and itself, shifts read the one register that there is. -/
theorem shiftOperand_self (source : ShiftSource) (v : UInt8) : shiftOperand source v v = v := by
  cases source with
  | vx => rfl
  | vy => rfl

end Arithmetic

namespace Machine

variable {instruction : Instruction}

/-- What ignores the random byte does not depend on the random source. -/
theorem execute_random_eq (h : instruction.ignoresRandom = true) (source : ShiftSource)
    (random other : Random.Source) (m : Machine) :
    m.execute source random instruction = m.execute source other instruction := by
  cases instruction with
  | random x mask =>
    have hm : mask = 0 := of_decide_eq_true h
    rw [execute, execute, hm, UInt8.and_zero, UInt8.and_zero]
  | _ => rfl

/-- What ignores the shift source does not depend on it. -/
theorem execute_source_eq (h : instruction.ignoresShiftSource = true) (source other : ShiftSource)
    (random : Random.Source) (m : Machine) :
    m.execute source random instruction = m.execute other random instruction := by
  cases instruction with
  | arithmetic operation x y =>
    cases operation with
    | shiftRight =>
      have hx : x = y := of_decide_eq_true h
      simp only [execute, Arithmetic.apply, hx, Arithmetic.shiftOperand_self]
    | shiftLeft =>
      have hx : x = y := of_decide_eq_true h
      simp only [execute, Arithmetic.apply, hx, Arithmetic.shiftOperand_self]
    | _ => rfl
  | _ => rfl

end Machine

namespace Core

variable {source other : ShiftSource} {same : Prop} {c d f : Core} {n : Nat}

/-- Two cores have the same machine and, if anything depends on it, the same random
source. -/
structure Alike (same : Prop) (c d : Core) : Prop where
  /-- The machines are the same. -/
  machine : c.machine = d.machine
  /-- The random sources are the same if they have to be. -/
  random : same → c.random = d.random

/-- An instruction by which the cores cannot be told apart does the same on both. -/
theorem Alike.execute_eq (h : Alike same c d)
    (hr : ¬same → c.machine.instruction.ignoresRandom = true)
    (hs : source ≠ other → c.machine.instruction.ignoresShiftSource = true) :
    c.machine.fetched.execute source c.random c.machine.instruction =
      d.machine.fetched.execute other d.random d.machine.instruction := by
  have hsource : c.machine.fetched.execute source c.random c.machine.instruction =
      c.machine.fetched.execute other c.random c.machine.instruction := by
    by_cases he : source = other
    · rw [he]
    · exact Machine.execute_source_eq (hs he) source other c.random c.machine.fetched
  have hrandom : c.machine.fetched.execute other c.random c.machine.instruction =
      c.machine.fetched.execute other d.random c.machine.instruction := by
    by_cases he : same
    · rw [h.random he]
    · exact Machine.execute_random_eq (hr he) other c.random d.random c.machine.fetched
  rw [hsource, hrandom, h.machine]

/-- What a step leaves of the machine is what the instruction does to it, if it retires. -/
theorem machine_step (source : ShiftSource) (c : Core) : (c.step source).1.machine =
    match c.machine.fetched.execute source c.random c.machine.instruction with
    | .ok m => m
    | .error _ => c.machine.fetched := by
  have hi : Instruction.decode c.upcoming.word = c.machine.instruction := rfl
  rw [step, hi]
  cases c.machine.fetched.execute source c.random c.machine.instruction with
  | ok m => rfl
  | error error => rfl

/-- An instruction by which the cores cannot be told apart leaves them alike. -/
theorem Alike.step (h : Alike same c d) (hr : ¬same → c.machine.instruction.ignoresRandom = true)
    (hs : source ≠ other → c.machine.instruction.ignoresShiftSource = true) :
    Alike same (c.step source).1 (d.step other).1 where
  machine := by
    rw [machine_step, machine_step, h.execute_eq hr hs, h.machine]
  random := by
    intro he
    rw [random_step, random_step, h.machine, h.random he]

/-- The record of the next instruction is told by the machine. -/
theorem upcoming_congr (h : c.machine = d.machine) : c.upcoming = d.upcoming := by
  simp only [upcoming, h]

/-- Whether the next instruction is refused is told by the machine. -/
theorem fault?_congr (h : c.machine = d.machine) : c.fault? source = d.fault? other := by
  apply Option.ext
  intro error
  rw [fault?_eq_some_iff, fault?_eq_some_iff, h]

/-- Where plain execution of one core ends, that of another one ends in the same way if
the machines are the same up to there. -/
theorem Ends.congr {fault : Option EngineError} (he : c.Ends source n fault f)
    (h : ∀ k ≤ n, (c.after source k).machine = (d.after other k).machine) :
    ∃ g, d.Ends other n fault g := by
  have hclear : c.Clear source n → d.Clear other n := by
    intro hc k hk
    have hm := h k (by omega)
    rw [← hm, ← fault?_congr hm]
    exact hc k hk
  have hm := h n (Nat.le_refl n)
  cases he with
  | halted hc hp =>
    rw [hm] at hp
    exact ⟨_, .halted (hclear hc) hp⟩
  | aborted hc hp hf =>
    rw [hm] at hp
    rw [fault?_congr hm] at hf
    exact ⟨_, .aborted (hclear hc) hp hf⟩

end Core

namespace Engine

variable {e f : Engine} {same : Prop} {n : Nat}

/-- What a host sees of two engines is the same. -/
structure SeenAlike (e f : Engine) : Prop where
  /-- The machines are the same. -/
  machine : e.machine = f.machine
  /-- The same instruction was executed last, with the same operands. -/
  lastRetired : e.lastRetired = f.lastRetired
  /-- The next instruction is answered by the same record or by the same error. -/
  answer : e.step.value = f.step.value

/-- How the next instruction is answered is told by the machine. -/
theorem step_value_congr (h : e.machine = f.machine) : e.step.value = f.step.value := by
  have hx : e.fault? = f.fault? := Core.fault?_congr h
  cases hf : f.fault? with
  | none =>
    rw [hf] at hx
    rw [value_of_retires hf, value_of_retires hx, Core.upcoming_congr h]
  | some error =>
    rw [hf] at hx
    rw [value_of_fails hf, value_of_fails hx]

/-- The record of the last instruction after a step is told by the answer. -/
theorem lastRetired_step (e : Engine) : e.step.engine.lastRetired =
    match e.step.value with
    | .ok record => some record
    | .error _ => e.lastRetired := by
  cases hf : e.fault? with
  | none => rw [step_of_retires hf]
  | some error => rw [step_of_fails hf]

/-- No run changes the config. -/
theorem config_run (e : Engine) (program : List UInt8) (ticket : Ticket) :
    (e.run program ticket).engine.config = e.config := by
  have hp : Performs e (.run program ticket) ((e.run program ticket).answer fun _ => .done) :=
    ⟨0, rfl⟩
  exact hp.config_eq

/-- Runs of one program on two engines with seeds start alike or are refused alike. -/
theorem run_alike {seed other : UInt64} (he : e.config.rngSeed = some seed)
    (hf : f.config.rngSeed = some other) (program : List UInt8) (ticket claim : Ticket) :
    (e.run program ticket).value = (f.run program claim).value ∧
      Core.Alike (seed = other) (e.run program ticket).engine.core
        (f.run program claim).engine.core ∧
      (e.run program ticket).engine.lastRetired = (f.run program claim).engine.lastRetired := by
  have hr : seed = other → e.cleared.core.random = f.cleared.core.random := by
    intro hs
    rw [cleared, cleared, he, hf, hs]
  rw [run_eq, run_eq]
  cases Machine.initial.load program programOrigin with
  | ok m => exact ⟨rfl, ⟨rfl, hr⟩, rfl⟩
  | error error => exact ⟨rfl, ⟨rfl, hr⟩, rfl⟩

/-- Steps leave two engines alike for as long as the first of them comes to no instruction
by which they could be told apart. -/
theorem alike_after (h : Core.Alike same e.core f.core) (hl : e.lastRetired = f.lastRetired)
    (hn : ∀ k < n, (¬same → (e.after k).machine.instruction.ignoresRandom = true) ∧
      (e.config.shiftSource ≠ f.config.shiftSource →
        (e.after k).machine.instruction.ignoresShiftSource = true)) :
    Core.Alike same (e.after n).core (f.after n).core ∧
      (e.after n).lastRetired = (f.after n).lastRetired := by
  induction n with
  | zero => exact ⟨h, hl⟩
  | succ n ih =>
    obtain ⟨hc, hr⟩ := ih fun k hk => hn k (by omega)
    obtain ⟨hseed, hshift⟩ := hn n (Nat.lt_succ_self n)
    have hs := hc.step hseed hshift
    have hv : (e.after n).step.value = (f.after n).step.value := step_value_congr hc.machine
    refine ⟨?_, ?_⟩
    · rw [core_after, core_after] at hs ⊢
      exact hs
    · rw [after, after, lastRetired_step, lastRetired_step, hv, hr]

end Engine

/-- A program is started on new engines under two configs with seeds. While the first run
executes no random instruction with a mask other than zero unless the seeds are the same,
and no shift between two registers unless the shift sources are, both runs are seen alike
after every instruction, and one of them is over where the other one is, in the same
way. -/
theorem configs_seen_alike (seed other : UInt64)
    (source shift : ShiftSource) (key entropy : Random.Key) (program : List UInt8)
    (ticket claim : Ticket) :
    let started := (Engine.new ⟨some seed, source⟩ key).run program ticket
    let peer := (Engine.new ⟨some other, shift⟩ entropy).run program claim
    started.value = peer.value ∧ ∀ n,
      (∀ k < n, let instruction := (started.engine.after k).machine.instruction
        (seed ≠ other → instruction.ignoresRandom = true) ∧
        (source ≠ shift → instruction.ignoresShiftSource = true)) →
      ∀ k ≤ n, (started.engine.after k).SeenAlike (peer.engine.after k) ∧
        ∀ fault, (∃ c, started.engine.core.Ends source k fault c) ↔
          ∃ c, peer.engine.core.Ends shift k fault c := by
  intro started peer
  obtain ⟨hv, ha, hl⟩ := Engine.run_alike (e := .new ⟨some seed, source⟩ key)
    (f := .new ⟨some other, shift⟩ entropy) rfl rfl program ticket claim
  obtain ⟨hc, hd⟩ : started.engine.config = ⟨some seed, source⟩ ∧
      peer.engine.config = ⟨some other, shift⟩ := ⟨Engine.config_run .., Engine.config_run ..⟩
  refine ⟨hv, ?_⟩
  intro n hn
  have hs : ∀ k ≤ n, Core.Alike (seed = other) (started.engine.after k).core
      (peer.engine.after k).core ∧
        (started.engine.after k).lastRetired = (peer.engine.after k).lastRetired := by
    intro k hk
    apply Engine.alike_after ha hl
    intro j hj
    obtain ⟨hseed, hshift⟩ := hn j (by omega)
    rw [hc, hd]
    exact ⟨hseed, hshift⟩
  intro k hk
  obtain ⟨hx, hr⟩ := hs k hk
  refine ⟨⟨hx.machine, hr, Engine.step_value_congr hx.machine⟩, ?_⟩
  intro fault
  have hm : ∀ j ≤ k, (started.engine.core.after source j).machine =
      (peer.engine.core.after shift j).machine := by
    intro j hj
    have hy := (hs j (by omega)).1.machine
    rw [Engine.core_after, Engine.core_after, hc, hd] at hy
    exact hy
  constructor
  · rintro ⟨c, he⟩
    exact he.congr hm
  · rintro ⟨c, he⟩
    exact he.congr fun j hj => (hm j hj).symm

/-- A random byte is masked away and a register is shifted into itself before a return is
refused: nothing of it tells apart two configs in which everything differs. -/
theorem configs_seen_alike_of_masked_byte :
    let started := (Engine.new ⟨some 1, .vx⟩ (Vector.replicate 8 0)).run
      [0xC0, 0x00, 0x61, 0x05, 0x81, 0x16, 0x00, 0xEE] 7
    let peer := (Engine.new ⟨some 2, .vy⟩ (Vector.replicate 8 0)).run
      [0xC0, 0x00, 0x61, 0x05, 0x81, 0x16, 0x00, 0xEE] 8
    started.value = .ok () ∧ started.value = peer.value ∧
      (started.engine.after 3).SeenAlike (peer.engine.after 3) ∧
      (started.engine.after 3).core.random ≠ (peer.engine.after 3).core.random ∧
      (started.engine.after 3).machine.v.get 1 = 2 ∧
      (peer.engine.after 3).step.value = .error (.stackUnderflow 0x206) := by
  intro started peer
  let key : Random.Key := Vector.replicate 8 0
  obtain ⟨hv, hs⟩ := configs_seen_alike 1 2 .vx .vy key key
    [0xC0, 0x00, 0x61, 0x05, 0x81, 0x16, 0x00, 0xEE] 7 8
  have hn : ∀ k < 3, let instruction := (started.engine.after k).machine.instruction
      ((1 : UInt64) ≠ 2 → instruction.ignoresRandom = true) ∧
        (ShiftSource.vx ≠ .vy → instruction.ignoresShiftSource = true) := by decide +kernel
  have hx : (started.engine.after 3).SeenAlike (peer.engine.after 3) := (hs 3 hn 3 (by omega)).1
  have hy : ((started.engine.after 3).core.random == (peer.engine.after 3).core.random,
      (started.engine.after 3).machine.v.get 1, (started.engine.after 3).fault?) =
        (false, 2, some (.stackUnderflow 0x206)) := by decide +kernel
  simp only [Prod.mk.injEq, beq_eq_false_iff_ne] at hy
  obtain ⟨hr, hw, hf⟩ := hy
  have hz := hx.answer
  rw [Engine.value_of_fails hf] at hz
  exact ⟨rfl, hv, hx, hr, hw, hz.symm⟩

end Chip8
