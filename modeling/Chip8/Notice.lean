import Chip8.Log

/-!
# Notices

What an engine tells its host while it works: log events, and the completion
that a host is promised for each started run. Operations return their notices
in the order in which they arise.
-/

namespace Chip8

/-- The number by which a host recognises a run of which it wants to know the
end. -/
abbrev Ticket := Nat

/-- What an engine tells its host. -/
inductive Notice where
  /-- An event of the log. -/
  | event (e : LogEvent)
  /-- The run with this ticket is over, by an error if there is one. -/
  | completed (ticket : Ticket) (error : Option EngineError)
  deriving DecidableEq, Repr

namespace Notice

/-- The events among some notices that a log at a level shows, in order. -/
def shownBy (log : Level) (notices : List Notice) : List LogEvent :=
  notices.filterMap fun notice =>
    match notice with
    | .event e => if log.shows e.level then some e else none
    | .completed _ _ => none

/-- The completions among some notices, in order. -/
def completions (notices : List Notice) : List (Ticket × Option EngineError) :=
  notices.filterMap fun notice =>
    match notice with
    | .event _ => none
    | .completed ticket error => some (ticket, error)

end Notice

end Chip8
