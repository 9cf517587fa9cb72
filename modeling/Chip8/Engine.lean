import Chip8.Core
import Chip8.Notice

/-!
# The engine

An engine is a machine with a random source, a config and the life of one run.
A run is started once and then resumed until its program counter leaves memory
or an instruction fails. While it is running, exactly one completion is
pending; a reset or another run abandons it.
-/

namespace Chip8

/-- The stages in the life of a run. -/
inductive Lifecycle where
  /-- No run has been started. -/
  | idle
  /-- A run has been started and is not over. -/
  | running
  /-- The run is over. -/
  | halted
  deriving DecidableEq, Repr

namespace Lifecycle

/-- The name of a stage. -/
def shown : Lifecycle → String
  | .idle => "Idle"
  | .running => "Running"
  | .halted => "Halted"

end Lifecycle

/-- A machine and the life of the run on it. -/
structure Engine where
  /-- The machine and its random source. -/
  core : Core
  /-- The choices of the host. -/
  config : Config
  /-- Where the run stands. -/
  lifecycle : Lifecycle
  /-- The instruction executed last since the last reset. -/
  lastRetired : Option Retired
  /-- The completion that is owed to the host. -/
  completion : Option Ticket
  deriving DecidableEq

/-- What an operation leaves, tells and answers. -/
structure Reply (α : Type) where
  /-- The engine after the operation. -/
  engine : Engine
  /-- What the host was told, in order. -/
  notices : List Notice
  /-- The answer of the operation. -/
  value : α

namespace Engine

/-- A new engine. Without a seed its random source starts from the given
arbitrary key. -/
def new (config : Config) (entropy : Random.Key) : Engine where
  core := ⟨.initial,
    match config.rngSeed with
    | some seed => .seeded seed
    | none => .start entropy⟩
  config := config
  lifecycle := .idle
  lastRetired := none
  completion := none

/-- The machine of the engine. -/
def machine (e : Engine) : Machine := e.core.machine

/-- Whether a run is in progress. -/
def isRunning (e : Engine) : Bool := e.lifecycle == .running

/-- Switch the machine off and on again. A seeded random source starts over;
any other continues. -/
def cleared (e : Engine) : Engine where
  core := ⟨.initial,
    match e.config.rngSeed with
    | some seed => .seeded seed
    | none => e.core.random⟩
  config := e.config
  lifecycle := .idle
  lastRetired := none
  completion := none

/-- Reset the engine. A pending completion is abandoned. -/
def reset (e : Engine) : Reply Unit := ⟨e.cleared, [.event .engineReset], ()⟩

/-- Replace the machine. -/
def withMachine (e : Engine) (m : Machine) : Engine :=
  { e with core := { e.core with machine := m } }

/-- Load a program at an address and change nothing else. -/
def load (e : Engine) (program : List UInt8) (origin : UInt16) :
    Reply (Except EngineError Unit) :=
  match e.machine.load program origin with
  | .ok m => ⟨e.withMachine m, [.event (.programLoaded origin program.length)], .ok ()⟩
  | .error error => ⟨e, [], .error error⟩

/-- Reset the engine, load a program and start a run of it. If the program
does not fit, the engine stays reset. -/
def run (e : Engine) (program : List UInt8) (ticket : Ticket) :
    Reply (Except EngineError Unit) :=
  let loaded := e.cleared.load program programOrigin
  match loaded.value with
  | .ok () =>
    ⟨{ loaded.engine with lifecycle := .running, completion := some ticket },
      .event .engineReset :: (loaded.notices ++ [.event (.runStarted program.length)]),
      .ok ()⟩
  | .error error => ⟨loaded.engine, .event .engineReset :: loaded.notices, .error error⟩

/-- The log event of the instruction at the program counter. -/
def dispatch (e : Engine) : Notice := .event (.dispatched e.machine.pc e.machine.fetch)

/-- Execute one instruction, whatever the run is doing. -/
def step (e : Engine) : Reply (Except EngineError Retired) :=
  match e.core.step e.config.shiftSource with
  | (core, .ok retired) =>
    ⟨{ e with core := core, lastRetired := some retired }, [e.dispatch], .ok retired⟩
  | (core, .error error) => ⟨{ e with core := core }, [e.dispatch], .error error⟩

/-- End the run and complete it. -/
def finish (e : Engine) (error : Option EngineError) : Engine × List Notice :=
  ({ e with lifecycle := .halted, completion := none },
    match e.completion with
    | some ticket => [.completed ticket error]
    | none => [])

/-- The data register of a number. -/
def dataRegister (e : Engine) (index : Nat) : Except EngineError UInt8 :=
  if h : index < 16 then .ok e.machine.v[index] else .error (.registerOutOfRange index)

/-- The text that shows an engine to a person. -/
def shown (e : Engine) : String :=
  Text.openRecord "Engine"
    [("pc", Text.address e.machine.pc), ("exec_state", e.lifecycle.shown),
     ("config", e.config.shown), ("on_complete", Text.truth e.completion.isSome)]

end Engine

end Chip8
