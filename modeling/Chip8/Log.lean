import Chip8.Debug.PauseReason
import Chip8.Error
import Chip8.Word

/-!
# The log

What an engine reports while it works, with how urgent each event is and what
it tells beside its message.
-/

namespace Chip8

/-- How urgent a log event is. -/
inductive Level where
  /-- A run was cut short. -/
  | warn
  /-- A stage in the life of a run. -/
  | debug
  /-- A single instruction. -/
  | trace
  deriving DecidableEq, Repr

/-- What an engine reports. -/
inductive LogEvent where
  /-- The engine was reset. -/
  | engineReset
  /-- A program was loaded. -/
  | programLoaded (origin : UInt16) (length : Nat)
  /-- A run was started. -/
  | runStarted (length : Nat)
  /-- A run came to the end of memory. -/
  | programHalted (executed : Nat)
  /-- A run was cut short by an error. -/
  | runAborted (pc : UInt16) (error : EngineError)
  /-- A word was fetched for execution. -/
  | dispatched (pc : UInt16) (word : Word)
  /-- A debugger suspended the run. -/
  | debuggerPaused (pc : UInt16) (reason : Debug.PauseReason)
  deriving DecidableEq, Repr

namespace Level

/-- How much a log at this level lets through. -/
def rank : Level → Nat
  | .warn => 0
  | .debug => 1
  | .trace => 2

/-- The name of a level in the log. -/
def label : Level → String
  | .warn => "WARN"
  | .debug => "DEBUG"
  | .trace => "TRACE"

/-- Whether a log at a level shows events of another. -/
def shows (log event : Level) : Bool := decide (event.rank ≤ log.rank)

end Level

namespace LogEvent

/-- The level of an event. -/
def level : LogEvent → Level
  | .engineReset => .debug
  | .programLoaded _ _ => .debug
  | .runStarted _ => .debug
  | .programHalted _ => .debug
  | .runAborted _ _ => .warn
  | .dispatched _ _ => .trace
  | .debuggerPaused _ _ => .debug

/-- The message of an event. -/
def message : LogEvent → String
  | .engineReset => "engine reset"
  | .programLoaded _ _ => "program loaded"
  | .runStarted _ => "run started"
  | .programHalted _ => "program halted"
  | .runAborted _ _ => "run aborted"
  | .dispatched _ _ => "dispatch"
  | .debuggerPaused _ _ => "debugger paused"

/-- What an event tells beside its message. -/
def fields : LogEvent → Json.Members
  | .engineReset => []
  | .programLoaded origin length =>
    [("origin", .natural origin.toNat), ("len", .natural length)]
  | .runStarted length => [("len", .natural length)]
  | .programHalted executed => [("executed", .natural executed)]
  | .runAborted pc error => [("pc", .natural pc.toNat), ("err", .text error.message)]
  | .dispatched pc word => [("pc", .natural pc.toNat), ("word", .natural word.toNat)]
  | .debuggerPaused pc reason =>
    [("reason", .text reason.shown), ("pc", .natural pc.toNat)]

end LogEvent

end Chip8
