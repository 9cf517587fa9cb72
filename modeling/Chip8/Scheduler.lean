import Chip8.Engine

/-!
# Scheduled runs

A run is resumed under a scheduler, which is asked around every instruction
whether the run goes on. For each instruction its hooks are called in this
order: before the instruction, when the instruction has retired, and then,
unless the run is over, at the yield point. Whether a run is over never depends
on the scheduler.

A run need not end, so resuming takes a limit on the number of turns and gives
no answer when the limit is reached. A larger limit never changes an answer.
-/

namespace Chip8

/-- What a scheduler wants. -/
inductive Decision where
  /-- The run goes on. -/
  | proceed
  /-- The run is suspended; a debugger says why. -/
  | suspend (reason : Option Debug.PauseReason)
  deriving DecidableEq, Repr

/-- The hooks of a scheduler, as functions of the engine they observe and of
the state of the scheduler. -/
structure Scheduler (σ : Type) where
  /-- Asked before each instruction. -/
  beforeExec : Engine → σ → Decision × σ
  /-- Told of each executed instruction before it is known whether the run is
  over. -/
  retired : Engine → Retired → σ → σ
  /-- Asked after each instruction that leaves the run in memory. -/
  yieldPoint : Engine → σ → Decision × σ

namespace Scheduler

/-- A scheduler that is asked at yield points only. -/
def ofYieldPoint {σ : Type} (yieldPoint : Engine → σ → Decision × σ) : Scheduler σ where
  beforeExec _ s := (.proceed, s)
  retired _ _ s := s
  yieldPoint := yieldPoint

/-- Never suspends a run. -/
def toCompletion : Scheduler Unit := ofYieldPoint fun _ s => (.proceed, s)

end Scheduler

/-- Why a resumed run returned without an error. -/
inductive RunExit where
  /-- The scheduler suspended the run. -/
  | yielded (executed : Nat)
  /-- The program counter left memory. -/
  | halted (executed : Nat)
  /-- There was no run in progress. -/
  | notRunning
  deriving DecidableEq, Repr

namespace RunExit

/-- How many instructions the resumption has executed. -/
def executed : RunExit → Nat
  | .yielded executed => executed
  | .halted executed => executed
  | .notRunning => 0

end RunExit

/-- What a resumed run leaves, tells and answers. -/
structure Resumed (σ : Type) extends Reply (Except EngineError RunExit) where
  /-- The scheduler after the run returned. -/
  scheduler : σ

/-- A run between two turns. -/
structure Progress (σ : Type) where
  /-- The engine so far. -/
  engine : Engine
  /-- The scheduler so far. -/
  scheduler : σ
  /-- How many instructions have been executed. -/
  executed : Nat
  /-- What the host has been told, in order. -/
  notices : Array Notice

namespace Progress

variable {σ : Type}

/-- The progress of a run that has just been resumed. -/
def start (e : Engine) (s : σ) : Progress σ := ⟨e, s, 0, #[]⟩

/-- Return from the run. -/
def stop (p : Progress σ) (value : Except EngineError RunExit) : Resumed σ where
  engine := p.engine
  notices := p.notices.toList
  value := value
  scheduler := p.scheduler

/-- Return because the scheduler wants it; the pause of a debugger is logged. -/
def suspend (p : Progress σ) (reason : Option Debug.PauseReason) : Resumed σ :=
  let notices :=
    match reason with
    | some reason => p.notices.push (.event (.debuggerPaused p.engine.machine.pc reason))
    | none => p.notices
  { p with notices := notices }.stop (.ok (.yielded p.executed))

/-- Return because the program counter has left memory. -/
def halt (p : Progress σ) : Resumed σ :=
  let finished := p.engine.finish none
  { p with
    engine := finished.1
    notices := p.notices.push (.event (.programHalted p.executed)) ++ finished.2
  }.stop (.ok (.halted p.executed))

/-- Return because an instruction failed. -/
def abort (p : Progress σ) (error : EngineError) : Resumed σ :=
  let finished := p.engine.finish (some error)
  { p with
    engine := finished.1
    notices := p.notices.push (.event (.runAborted p.engine.machine.pc error)) ++ finished.2
  }.stop (.error error)

/-- One turn of a run: the check for the end of memory, and then one
instruction with the hooks around it. -/
def turn (hooks : Scheduler σ) (p : Progress σ) : Progress σ ⊕ Resumed σ :=
  if p.engine.machine.pastEnd then .inr p.halt
  else
    match hooks.beforeExec p.engine p.scheduler with
    | (.suspend reason, s) => .inr ({ p with scheduler := s }.suspend reason)
    | (.proceed, s) =>
      let stepped := p.engine.step
      let notices := p.notices ++ stepped.notices
      match stepped.value with
      | .error error => .inr (abort ⟨stepped.engine, s, p.executed, notices⟩ error)
      | .ok retired =>
        let s := hooks.retired stepped.engine retired s
        if stepped.engine.machine.pastEnd then
          .inl ⟨stepped.engine, s, p.executed + 1, notices⟩
        else
          match hooks.yieldPoint stepped.engine s with
          | (.suspend reason, s) =>
            .inr (suspend ⟨stepped.engine, s, p.executed + 1, notices⟩ reason)
          | (.proceed, s) => .inl ⟨stepped.engine, s, p.executed + 1, notices⟩

/-- Take turns until the run returns, but no more than a limit. -/
def proceed (hooks : Scheduler σ) : Nat → Progress σ → Option (Resumed σ)
  | 0, _ => none
  | limit + 1, p =>
    match p.turn hooks with
    | .inl p => proceed hooks limit p
    | .inr r => some r

end Progress

namespace Engine

/-- Resume the run under a scheduler until it is suspended or over. There is
no answer if that takes more turns than the limit. -/
def resume {σ : Type} (hooks : Scheduler σ) (limit : Nat) (e : Engine) (s : σ) :
    Option (Resumed σ) :=
  if e.isRunning then (Progress.start e s).proceed hooks limit
  else some ((Progress.start e s).stop (.ok .notRunning))

end Engine

namespace Progress

/-- More turns than a run takes change nothing. -/
theorem proceed_add {σ : Type} {hooks : Scheduler σ} {limit : Nat} {p : Progress σ}
    {r : Resumed σ} (h : p.proceed hooks limit = some r) (more : Nat) :
    p.proceed hooks (limit + more) = some r := by
  induction limit generalizing p with
  | zero => cases h
  | succ limit ih =>
    rw [Nat.add_right_comm]
    rw [proceed] at h ⊢
    split
    · rename_i hp
      rw [hp] at h
      exact ih h
    · rename_i hr
      rw [hr] at h
      exact h

end Progress

end Chip8
