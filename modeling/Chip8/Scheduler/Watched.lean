import Chip8.Scheduler

/-!
# Watched schedulers

A scheduler that decides like another one and keeps a list of all calls of its
hooks, each with the engine as the hook saw it.
-/

namespace Chip8

/-- One call of a hook. -/
inductive HookCall where
  /-- The call before an instruction. -/
  | beforeExec (e : Engine)
  /-- The call when an instruction has retired. -/
  | retired (e : Engine) (record : Retired)
  /-- The call at a yield point. -/
  | yieldPoint (e : Engine)
  deriving DecidableEq

/-- The state of a watched scheduler. -/
structure Watched (σ : Type) where
  /-- The state of the scheduler itself. -/
  inner : σ
  /-- The calls of its hooks so far, in order. -/
  calls : Array HookCall

namespace Scheduler

/-- Keep a list of the hook calls of a scheduler. -/
def watched {σ : Type} (hooks : Scheduler σ) : Scheduler (Watched σ) where
  beforeExec e s :=
    let answer := hooks.beforeExec e s.inner
    (answer.1, ⟨answer.2, s.calls.push (.beforeExec e)⟩)
  retired e record s := ⟨hooks.retired e record s.inner, s.calls.push (.retired e record)⟩
  yieldPoint e s :=
    let answer := hooks.yieldPoint e s.inner
    (answer.1, ⟨answer.2, s.calls.push (.yieldPoint e)⟩)

end Scheduler

end Chip8
