import Chip8.Debug.Debugger
import Chip8.Debug.Tracer
import Chip8.Scheduler

/-!
# The debugging host

A scheduler that suspends a run where a debugger wants to stop and feeds every
executed instruction to a tracer.
-/

namespace Chip8.Debug

/-- A debugger and a tracer at work on one engine. -/
structure Host where
  /-- Decides where runs stop. -/
  debugger : Debugger
  /-- Records what instructions do. -/
  tracer : Tracer
  /-- Why a run was suspended last. -/
  lastPause : Option PauseReason
  deriving DecidableEq, Repr

namespace Host

/-- A host that has suspended no run yet. -/
def new (debugger : Debugger) (tracer : Tracer) : Host := ⟨debugger, tracer, none⟩

/-- A host that stops nowhere, with the standard tracer. -/
def standard : Host := new .new .standard

/-- Do what the debugger answers. -/
def follow (h : Host) : Option PauseReason × Debugger → Decision × Host
  | (some reason, d) => (.suspend (some reason), { h with debugger := d, lastPause := some reason })
  | (none, d) => (.proceed, { h with debugger := d })

/-- Record an instruction after which the machine is as given. -/
def record (h : Host) (retired : Retired) (m : Machine) : Host :=
  { h with tracer := h.tracer.recordRetired retired m }

/-- Run an engine under the debugger and the tracer. -/
def scheduler : Scheduler Host where
  beforeExec e h := h.follow (h.debugger.beforeExec e.machine.pc)
  retired e retired h := h.record retired e.machine
  yieldPoint e h := h.follow (h.debugger.afterExec e.machine.pc)

/-- Execute and trace one instruction outside any run, without asking the
debugger. -/
def step (h : Host) (e : Engine) : Host × Reply (Except EngineError Retired) :=
  let stepped := e.step
  match stepped.value with
  | .ok retired => (h.record retired stepped.engine.machine, stepped)
  | .error _ => (h, stepped)

end Host

end Chip8.Debug
