import Chip8.Debug.Codec
import Chip8.Debug.Queue

/-!
# The tracer

A bounded log of trace events. When it is full, the oldest event makes room for
the newest and is counted as evicted.
-/

namespace Chip8.Debug

/-- A bounded log of the events that pass a filter. -/
structure Tracer where
  /-- Which events are kept. -/
  filter : TraceFilter
  /-- How many events are held at most. -/
  capacity : Nat
  /-- The events held, oldest first. -/
  events : Queue TraceEvent
  /-- How many events have made room for newer ones. -/
  evicted : Nat
  deriving DecidableEq, Repr

namespace Tracer

/-- An empty log that holds at least one event. -/
def new (capacity : Nat) (filter : TraceFilter) : Tracer := ⟨filter, max capacity 1, .empty, 0⟩

/-- How many events a log holds if nothing else is asked for. -/
def standardCapacity : Nat := 16384

/-- The log that is kept if nothing else is asked for. -/
def standard : Tracer := new standardCapacity .standard

/-- Append an event and evict the oldest one if the log is full. -/
def push (t : Tracer) (e : TraceEvent) : Tracer :=
  if t.events.size = t.capacity then
    { t with events := t.events.pop.push e, evicted := t.evicted + 1 }
  else { t with events := t.events.push e }

/-- Append an event if it passes the filter. -/
def record (t : Tracer) (e : TraceEvent) : Tracer := if t.filter.keeps e then t.push e else t

/-- Record the events of an instruction. The machine is the one right after
it. -/
def recordRetired (t : Tracer) (retired : Retired) (m : Machine) : Tracer :=
  (TraceEvent.ofRetired retired m).foldl record t

/-- Take the oldest events out, no more than a number of them. -/
def drain (t : Tracer) (most : Nat) : List TraceEvent × Tracer :=
  let held := t.events.toList
  (held.take most, { t with events := .ofList (held.drop most) })

/-- The compact text of the events held. -/
def toJson (t : Tracer) : String := TraceEvent.listToJson t.events.toList

/-- Take all events out. -/
def drainAll (t : Tracer) : List TraceEvent × Tracer := t.drain t.events.size

end Tracer

end Chip8.Debug
