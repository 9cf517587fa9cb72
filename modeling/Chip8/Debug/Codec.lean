import Chip8.Debug.PauseReason
import Chip8.Debug.TraceEvent
import Chip8.Json.Tagged

/-!
# Written trace values

Events, filters and reasons for a pause are written compactly, with the name of
the kind first and the fields in a fixed order, and are read from any layout:
members in any order, among other members, or an array without keys.

Events and reasons are held whole before their kind is known, so all of their
text must be readable. Unknown members of a filter are passed over, and only
their grammar matters.
-/

namespace Chip8.Debug

/-- The members of a tagged value as they are written. -/
def taggedMembers (kind : String) (fields : Json.Members) : Json.Members :=
  (Json.Value.kindKey, .text kind) :: fields

namespace PauseReason

/-- The members of a reason as they are written. -/
def members (r : PauseReason) : Json.Members := taggedMembers r.kind r.fields

/-- The compact text of a reason. -/
def toJson (r : PauseReason) : String := String.ofList (Json.objectChars r.members)

/-- The reason of a kind with a body. -/
def ofBody? (kind : String) (body : Json.Body) : Option PauseReason :=
  match kind with
  | "Manual" => (body.fields? []).map fun _ => .manual
  | "Breakpoint" =>
    match body.fields? ["pc"] with
    | some [pc] => pc.word?.map .breakpoint
    | _ => none
  | "StepsDone" => (body.fields? []).map fun _ => .stepsDone
  | _ => none

/-- The reason that a text writes. -/
def ofJson? (text : String) : Option PauseReason :=
  match (Json.Value.heldOfTokens (Json.Token.ofString text)).bind Json.Value.tagged? with
  | some (kind, body) => ofBody? kind body
  | none => none

end PauseReason

namespace TraceEvent

/-- The members of an event as they are written. -/
def members (e : TraceEvent) : Json.Members := taggedMembers e.kind e.fields

/-- The compact text of an event. -/
def toJson (e : TraceEvent) : String := String.ofList (Json.objectChars e.members)

/-- The event made of two words. -/
def ofWords? (make : UInt16 → UInt16 → TraceEvent) : List Json.Value → Option TraceEvent
  | [a, b] =>
    match a.word?, b.word? with
    | some a, some b => some (make a b)
    | _, _ => none
  | _ => none

/-- The event of a kind with a body. -/
def ofBody? (kind : String) (body : Json.Body) : Option TraceEvent :=
  match kind with
  | "Instruction" => (body.fields? ["pc", "word"]).bind (ofWords? .instruction)
  | "Call" => (body.fields? ["from", "to"]).bind (ofWords? .call)
  | "Return" => (body.fields? ["from", "to"]).bind (ofWords? .ret)
  | "Draw" =>
    match body.fields? ["x", "y", "rows", "collision"] with
    | some [x, y, rows, collision] =>
      match x.byte?, y.byte?, rows.byte?, collision.bool? with
      | some x, some y, some rows, some collision => some (.draw x y rows collision)
      | _, _, _, _ => none
    | _ => none
  | _ => none

/-- The event that a text writes. -/
def ofJson? (text : String) : Option TraceEvent :=
  match (Json.Value.heldOfTokens (Json.Token.ofString text)).bind Json.Value.tagged? with
  | some (kind, body) => ofBody? kind body
  | none => none

end TraceEvent

namespace TraceFilter

/-- The compact text of a filter. -/
def toJson (f : TraceFilter) : String := String.ofList (Json.objectChars f.members)

/-- A truth value that may be left out and may not be repeated. -/
def optional? (standard : Bool) : List Json.Value → Option Bool
  | [] => some standard
  | [v] => v.bool?
  | _ => none

/-- The filter of the truth values for its three fields. -/
def ofParts? (instructions controlFlow draws : List Json.Value) : Option TraceFilter :=
  match optional? standard.instructions instructions,
      optional? standard.controlFlow controlFlow,
      optional? standard.draws draws with
  | some instructions, some controlFlow, some draws => some ⟨instructions, controlFlow, draws⟩
  | _, _, _ => none

/-- The filter that a value writes. -/
def ofValue? : Json.Value → Option TraceFilter
  | .object members =>
    if members.all fun member => member.1.isSome then
      ofParts? (Json.Value.withKey "instructions" members)
        (Json.Value.withKey "control_flow" members) (Json.Value.withKey "draws" members)
    else none
  | .array items =>
    if items.length ≤ 3 then
      ofParts? (items.take 1) ((items.drop 1).take 1) (items.drop 2)
    else none
  | _ => none

/-- The filter that a text writes. -/
def ofJson? (text : String) : Option TraceFilter :=
  (Json.Value.ofTokens (Json.Token.ofString text)).bind ofValue?

end TraceFilter

namespace TraceEvent

/-- The compact text of a list of events. -/
def listToJson (events : List TraceEvent) : String :=
  String.ofList (Json.arrayChars (events.map members))

end TraceEvent

end Chip8.Debug
