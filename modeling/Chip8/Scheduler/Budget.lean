import Chip8.Scheduler

/-!
# Instruction budgets

A budget suspends a run after every slice of instructions. What is left of a
slice is kept from one resumption to the next.
-/

namespace Chip8

/-- A slice and what is left of it. -/
structure Budget where
  /-- How many instructions a run may execute at a time. -/
  slice : Nat
  /-- How many of them are left. -/
  remaining : Nat
  deriving DecidableEq, Repr

namespace Budget

/-- A whole slice; an empty one counts as one instruction. -/
def new (slice : Nat) : Budget := ⟨max slice 1, max slice 1⟩

/-- Spend one instruction. The last one of a slice suspends the run and begins
a new slice. -/
def spend (b : Budget) : Decision × Budget :=
  if b.remaining - 1 = 0 then (.suspend none, { b with remaining := b.slice })
  else (.proceed, { b with remaining := b.remaining - 1 })

/-- Spend an instruction at each yield point. -/
def scheduler : Scheduler Budget := .ofYieldPoint fun _ b => b.spend

/-- Spend a number of instructions; the answers in order. -/
def spendMany : Nat → Budget → List Decision × Budget
  | 0, b => ([], b)
  | n + 1, b =>
    let first := b.spend
    let rest := spendMany n first.2
    (first.1 :: rest.1, rest.2)

end Budget

end Chip8
