import Chip8.Scheduler

/-!
# Fixed stops

A scheduler that suspends a run at chosen addresses or after a chosen number of
yield points. Its state is the number of yield points it has been asked at.
-/

namespace Chip8

/-- Where a run is suspended. A number that no address reaches suspends nothing. -/
structure Stops where
  /-- Addresses whose instruction is not executed. -/
  before : List Nat
  /-- Addresses at which a run is suspended once it has come to them. -/
  after : List Nat
  /-- The number of the yield point at which a run is suspended. -/
  limit : Option Nat
  deriving DecidableEq, Repr

namespace Stops

/-- Suspend if a condition holds. -/
def suspendIf (condition : Bool) : Decision :=
  if condition then .suspend none else .proceed

/-- Suspend at the stops and count the yield points. -/
def scheduler (stops : Stops) : Scheduler Nat where
  beforeExec e count := (suspendIf (stops.before.contains e.machine.pc.toNat), count)
  retired _ _ count := count
  yieldPoint e count :=
    (suspendIf (stops.after.contains e.machine.pc.toNat || stops.limit == some (count + 1)),
      count + 1)

end Stops

end Chip8
