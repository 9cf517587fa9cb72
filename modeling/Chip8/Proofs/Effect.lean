import Chip8.Proofs.Execution

/-!
# Effects of instructions

What an instruction can do to a machine is said once, by cases. Calls and returns
are the only instructions that touch the call stack and the only ones that can
fail. A word that is fetched past the end of memory has no meaning, so calls are
made from inside memory only.
-/

namespace Chip8

namespace Instruction

/-- The address that an instruction names, if it names one. -/
def target? : Instruction → Option UInt16
  | .jump target => some target
  | .call target => some target
  | .loadIndex target => some target
  | .jumpOffset target => some target
  | _ => none

/-- Whether an instruction is a call. -/
def isCall : Instruction → Bool
  | .call _ => true
  | _ => false

/-- The address that a word names is its address field. -/
theorem target?_decode {w : Word} {target : UInt16} (h : (decode w).target? = some target) :
    target = w.nnn := by
  unfold decode at h
  repeat' split at h
  -- Four families of words are left, the others name no address.
  all_goals simp only [target?, Option.some.injEq, reduceCtorEq] at h
  all_goals exact h.symm

/-- The address that a word names lies inside memory. -/
theorem toNat_target_lt {w : Word} {target : UInt16} (h : (decode w).target? = some target) :
    target.toNat < memorySize := by
  have ht : target = w.nnn := target?_decode h
  have hw : w.nnn.toNat < 4096 := w.toNat_nnn_lt
  rw [ht]
  exact hw

end Instruction

namespace Machine

variable {m n : Machine}

/-- The instruction at the program counter. -/
def instruction (m : Machine) : Instruction := .decode m.fetch

/-- A program counter that has not left memory lies inside it. -/
theorem pc_lt_of_inside (h : m.pastEnd = false) : m.pc.toNat < memorySize := by
  have hp : ¬memorySize ≤ m.pc.toNat := of_decide_eq_false h
  omega

/-- Past the end of memory there are zeros. -/
theorem byteAt_of_le {address : Nat} (h : memorySize ≤ address) : m.byteAt address = 0 := by
  rw [byteAt, Memory.byteAt, Vector.getElem?_eq_none h]
  rfl

/-- Past the end of memory there are words of zeros only. -/
theorem fetch_of_pastEnd (h : m.pastEnd = true) : m.fetch = 0 := by
  have hp : memorySize ≤ m.pc.toNat := of_decide_eq_true h
  rw [fetch, byteAt_of_le hp, byteAt_of_le (by omega)]
  rfl

/-- Past the end of memory there is nothing to be done. -/
theorem instruction_of_pastEnd (h : m.pastEnd = true) : m.instruction = .idle := by
  rw [instruction, fetch_of_pastEnd h]
  rfl

/-- Only inside memory there is an instruction with a meaning. -/
theorem inside_of_instruction (h : m.instruction ≠ .idle) : m.pc.toNat < memorySize := by
  apply Nat.lt_of_not_le
  intro hp
  have he : m.pastEnd = true := decide_eq_true hp
  exact h (instruction_of_pastEnd he)

/-- A load acts on the memory and on the length of the program only. -/
theorem eq_of_load {program : List UInt8} {origin : UInt16}
    (h : m.load program origin = .ok n) : ∃ memory length,
      n = { m with memory := memory, programLength := length } := by
  unfold load at h
  split at h
  · exact ⟨_, _, (Except.ok.inj h).symm⟩
  · cases h

/-- All that an instruction can do to a machine. -/
inductive Effect (m : Machine) : Instruction → Machine → Prop
  /-- A return takes the topmost live address and continues behind it. -/
  | returned {address : UInt16} {calls : CallStack}
      (hp : m.calls.pop? = some (address, calls)) :
      Effect m .ret { m with calls := calls, pc := address + 2 }
  /-- A call makes its own address the topmost live one. -/
  | called {target : UInt16} {calls : CallStack} (hp : m.calls.push? m.pc = some calls) :
      Effect m (.call target) { m with calls := calls, pc := target }
  /-- A jump goes to its address. -/
  | jumped {target : UInt16} : Effect m (.jump target) { m with pc := target }
  /-- A jump with an offset goes as far past its address as `V0` says. -/
  | leapt {target : UInt16} :
      Effect m (.jumpOffset target) { m with pc := target + (m.v.get 0).toUInt16 }
  /-- An address is loaded into `I`. -/
  | indexed {target : UInt16} :
      Effect m (.loadIndex target) { m with i := target, pc := m.pc + 2 }
  /-- Every other instruction acts on the registers and the display and goes on with
  the following instruction or with the one after it. -/
  | passed {instruction : Instruction} {v : Vector UInt8 16} {display : Framebuffer}
      {length : UInt16} (hn : instruction.target? = none) (hr : instruction ≠ .ret)
      (hl : length = 2 ∨ length = 4) :
      Effect m instruction { m with v := v, display := display, pc := m.pc + length }

/-- Whether an instruction is skipped or not, nothing but the program counter
changes. -/
theorem effect_skipIf {instruction : Instruction} (hn : instruction.target? = none)
    (hr : instruction ≠ .ret) (skip : Bool) : Effect m instruction (m.skipIf skip) := by
  cases skip with
  | false => exact .passed hn hr (Or.inl rfl)
  | true => exact .passed hn hr (Or.inr rfl)

/-- Registers and flags are written without touching anything else. -/
theorem effect_setResult {instruction : Instruction} (hn : instruction.target? = none)
    (hr : instruction ≠ .ret) (x : Fin 16) (result : UInt8 × Option Bool) :
    Effect m instruction (m.setResult x result).advance := by
  rcases result with ⟨byte, flag⟩
  cases flag with
  | none => exact .passed hn hr (Or.inl rfl)
  | some flag => exact .passed hn hr (Or.inl rfl)

/-- An instruction that is executed has one of these effects. -/
theorem effect_of_execute {source : ShiftSource} {random : Random.Source}
    {instruction : Instruction} (h : m.execute source random instruction = .ok n) :
    Effect m instruction n := by
  cases instruction with
  | ret =>
    rw [execute] at h
    split at h
    · rename_i hp
      cases h
      exact .returned hp
    · cases h
  | call target =>
    rw [execute] at h
    split at h
    · rename_i hp
      cases h
      exact .called hp
    · cases h
  | jump target =>
    cases h
    exact .jumped
  | jumpOffset target =>
    cases h
    exact .leapt
  | loadIndex target =>
    cases h
    exact .indexed
  | skipIs x operand =>
    cases h
    exact effect_skipIf rfl (by simp) _
  | skipIsNot x operand =>
    cases h
    exact effect_skipIf rfl (by simp) _
  | skipSame x y =>
    cases h
    exact effect_skipIf rfl (by simp) _
  | skipDifferent x y =>
    cases h
    exact effect_skipIf rfl (by simp) _
  | arithmetic operation x y =>
    cases h
    exact effect_setResult rfl (by simp) x _
  | _ =>
    cases h
    exact .passed rfl (by simp) (Or.inl rfl)

/-- The only instructions that fail are returns while no call is live and calls while
all slots are. -/
theorem execute_eq_error_iff {source : ShiftSource} {random : Random.Source}
    {instruction : Instruction} {error : EngineError} :
    m.execute source random instruction = .error error ↔
      instruction = .ret ∧ m.calls.depth = 0 ∧ error = .stackUnderflow m.pc ∨
        instruction.isCall = true ∧ m.calls.depth = 16 ∧ error = .stackOverflow m.pc 16 := by
  cases instruction with
  | ret =>
    have hz := m.calls.pop?_eq_none_iff
    rw [execute]
    cases hp : m.calls.pop? with
    | none => simp [Instruction.isCall, hz.mp hp, eq_comm]
    | some taken =>
      have hn : m.calls.depth ≠ 0 := by
        intro hd
        rw [hz.mpr hd] at hp
        cases hp
      simp [Instruction.isCall, hn]
  | call target =>
    have hz := m.calls.push?_eq_none_iff m.pc
    rw [execute]
    cases hp : m.calls.push? m.pc with
    | none => simp [Instruction.isCall, hz.mp hp, eq_comm]
    | some calls =>
      have hn : m.calls.depth ≠ 16 := by
        intro hd
        rw [hz.mpr hd] at hp
        cases hp
      simp [Instruction.isCall, hn]
  | _ => simp [execute, Instruction.isCall]

/-- A return continues behind the address that it takes. -/
theorem Effect.of_ret (h : Effect m .ret n) : ∃ address calls,
    m.calls.pop? = some (address, calls) ∧ n.calls = calls ∧ n.pc = address + 2 := by
  cases h with
  | @returned address calls hp => exact ⟨address, calls, hp, rfl, rfl⟩
  | passed hn hr hl => exact absurd rfl hr

/-- A call remembers its own address. -/
theorem Effect.of_call {instruction : Instruction} (h : Effect m instruction n)
    (hc : instruction.isCall = true) :
    ∃ calls, m.calls.push? m.pc = some calls ∧ n.calls = calls := by
  cases h with
  | @called target calls hp => exact ⟨calls, hp, rfl⟩
  | passed hn hr hl =>
    unfold Instruction.isCall at hc
    split at hc
    · cases hn
    · cases hc
  | _ => cases hc

/-- A jump with an offset goes as far past its address as `V0` says. -/
theorem Effect.of_jumpOffset {target : UInt16} (h : Effect m (.jumpOffset target) n) :
    n.pc = target + (m.v.get 0).toUInt16 := by
  cases h with
  | leapt => rfl
  | passed hn hr hl => cases hn

/-- Only calls and returns touch the call stack. -/
theorem Effect.calls_eq {instruction : Instruction} (h : Effect m instruction n)
    (hr : instruction ≠ .ret) (hc : instruction.isCall = false) : n.calls = m.calls := by
  cases h with
  | returned hp => exact absurd rfl hr
  | called hp => cases hc
  | _ => rfl

/-- No instruction touches the word that was fetched. -/
theorem Effect.word_eq {instruction : Instruction} (h : Effect m instruction n) :
    n.word = m.word ∧ n.wordAddress = m.wordAddress := by
  cases h with
  | _ => exact ⟨rfl, rfl⟩

end Machine

namespace Core

variable {source : ShiftSource} {c : Core}

/-- An instruction that retires has one of the effects. -/
theorem effect_of_retires (h : c.fault? source = none) :
    Machine.Effect c.machine.fetched c.machine.instruction (c.step source).1.machine := by
  unfold fault? step at h
  unfold step
  dsimp only at h ⊢
  cases he : c.machine.fetched.execute source c.random (.decode c.upcoming.word) with
  | ok machine => exact Machine.effect_of_execute he
  | error error =>
    rw [he] at h
    cases h

/-- The instruction at the program counter fails when it is a return and no call is
live, or a call and all slots are. -/
theorem fault?_eq_some_iff {error : EngineError} : c.fault? source = some error ↔
    c.machine.instruction = .ret ∧ c.machine.calls.depth = 0 ∧
        error = .stackUnderflow c.machine.pc ∨
      c.machine.instruction.isCall = true ∧ c.machine.calls.depth = 16 ∧
        error = .stackOverflow c.machine.pc 16 := by
  have hs : c.fault? source = some error ↔
      c.machine.fetched.execute source c.random c.machine.instruction = .error error := by
    unfold fault? step
    dsimp only
    show _ ↔ c.machine.fetched.execute source c.random (.decode c.upcoming.word) = _
    cases c.machine.fetched.execute source c.random (.decode c.upcoming.word) with
    | ok machine => simp
    | error other => simp
  exact hs.trans Machine.execute_eq_error_iff

end Core

namespace Engine

variable {e : Engine}

/-- The machine after a step is that of the stepped core. -/
theorem machine_step (e : Engine) :
    e.step.engine.machine = (e.core.step e.config.shiftSource).1.machine := by
  rw [machine, e.step_frame.1]

/-- An instruction that retires has one of the effects on the machine. -/
theorem effect_of_retires (h : e.fault? = none) :
    Machine.Effect e.machine.fetched e.machine.instruction e.step.engine.machine := by
  rw [machine_step]
  exact Core.effect_of_retires h

/-- An instruction that fails has been fetched, and nothing else has changed. -/
theorem machine_of_fails {error : EngineError} (h : e.fault? = some error) :
    e.step.engine.machine = e.machine.fetched := by
  rw [step_of_fails h]
  rfl

/-- A step has fetched the word at the program counter. -/
theorem fetched_step (e : Engine) : e.step.engine.machine.word = e.machine.fetch ∧
    e.step.engine.machine.wordAddress = e.machine.pc := by
  cases hf : e.fault? with
  | none => exact (effect_of_retires hf).word_eq
  | some error =>
    rw [machine_of_fails hf]
    exact ⟨rfl, rfl⟩

/-- An instruction that is neither a call nor a return does not fail. -/
theorem fault?_eq_none (hr : e.machine.instruction ≠ .ret)
    (hc : e.machine.instruction.isCall = false) : e.fault? = none := by
  cases hf : e.fault? with
  | none => rfl
  | some error =>
    rcases Core.fault?_eq_some_iff.mp hf with ⟨hi, _⟩ | ⟨hi, _⟩
    · exact absurd hi hr
    · rw [machine, hi] at hc
      cases hc

/-- A step answers an error exactly when the instruction fails with it. -/
theorem step_value_eq_error_iff {error : EngineError} :
    e.step.value = .error error ↔ e.fault? = some error := by
  cases hf : e.fault? with
  | none => simp [value_of_retires hf]
  | some other => simp [value_of_fails hf]

end Engine

end Chip8
