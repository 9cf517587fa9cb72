import Chip8.Debug.PauseReason

/-!
# The debugger

A debugger decides where a run stops: at breakpoints, on demand, or after a
requested number of instructions. An address at which it has stopped is
remembered once, so that a breakpoint there does not stop the run again before
its instruction has been executed.
-/

namespace Chip8.Debug

/-- Where a debugger stands between two instructions. -/
structure Debugger where
  /-- The breakpoints in ascending order. -/
  breakpoints : List UInt16
  /-- Whether no instruction may be executed. -/
  paused : Bool
  /-- How many requested instructions are left. -/
  stepsLeft : Option Nat
  /-- The address of the last stop, until the next instruction is judged. -/
  parkedAt : Option UInt16
  deriving DecidableEq, Repr

/-- Put an address at its place in an ascending list. -/
def insertAscending (pc : UInt16) : List UInt16 → List UInt16
  | [] => [pc]
  | head :: tail =>
    if pc < head then pc :: head :: tail
    else if pc = head then head :: tail
    else head :: insertAscending pc tail

/-- The list holds the address and what it held before. -/
@[simp]
theorem mem_insertAscending (pc a : UInt16) (list : List UInt16) :
    a ∈ insertAscending pc list ↔ a = pc ∨ a ∈ list := by
  induction list with
  | nil => simp [insertAscending]
  | cons head tail ih =>
    rw [insertAscending]
    split
    · simp only [List.mem_cons]
    · split
      · rename_i he
        subst he
        simp only [List.mem_cons]
        constructor
        · exact Or.inr
        · rintro (h|h)
          · exact Or.inl h
          · exact h
      · simp only [List.mem_cons, ih]
        constructor
        · rintro (h|h|h)
          · exact Or.inr (Or.inl h)
          · exact Or.inl h
          · exact Or.inr (Or.inr h)
        · rintro (h|h|h)
          · exact Or.inr (Or.inl h)
          · exact Or.inl h
          · exact Or.inr (Or.inr h)

namespace Debugger

/-- A debugger that stops nowhere. -/
def new : Debugger := ⟨[], false, none, none⟩

/-- Set a breakpoint. The answer says whether there was none at the address. -/
def setBreakpoint (d : Debugger) (pc : UInt16) : Bool × Debugger :=
  (!d.breakpoints.contains pc, { d with breakpoints := insertAscending pc d.breakpoints })

/-- Stop before the next instruction. -/
def pause (d : Debugger) : Debugger := { d with paused := true, stepsLeft := none }

/-- Run freely until a breakpoint. -/
def resume (d : Debugger) : Debugger := { d with paused := false, stepsLeft := none }

/-- Run a number of instructions, at least one, and then stop. -/
def requestSteps (d : Debugger) (count : Nat) : Debugger :=
  { d with paused := false, stepsLeft := some (max count 1) }

/-- Judge whether the instruction at an address may be executed. -/
def beforeExec (d : Debugger) (pc : UInt16) : Option PauseReason × Debugger :=
  if d.paused then (some .manual, { d with parkedAt := some pc })
  else if d.parkedAt ≠ some pc ∧ d.breakpoints.contains pc then
    (some (.breakpoint pc),
      { d with paused := true, stepsLeft := none, parkedAt := some pc })
  else (none, { d with parkedAt := none })

/-- Count an executed instruction; the run will continue at an address. -/
def afterExec (d : Debugger) (pc : UInt16) : Option PauseReason × Debugger :=
  match d.stepsLeft with
  | none => (none, d)
  | some left =>
    if 0 < left - 1 then (none, { d with stepsLeft := some (left - 1) })
    else (some .stepsDone, { d with paused := true, stepsLeft := none, parkedAt := some pc })

end Debugger

end Chip8.Debug
