import Chip8.Json.Value

/-!
# Tagged values

A value of one of several kinds is written as an object that names its kind
under the key `type`, among its fields and any other members; or as an array of
the name and exactly the fields.
-/

namespace Chip8.Json

/-- What stands beside the name of a kind. -/
inductive Body where
  /-- All members of an object. -/
  | members (members : List (Option String × Value))
  /-- The items of an array behind the name. -/
  | items (items : List Value)
  deriving Repr

namespace Body

/-- The values of the named fields, in the order of the names. In an object
each must occur once; an array must hold them and nothing else. -/
def fields? (names : List String) : Body → Option (List Value)
  | .members all => names.mapM fun name => Value.only? name all
  | .items all => if all.length = names.length then some all else none

end Body

namespace Value

/-- The key that names the kind. -/
def kindKey : String := "type"

/-- The name of the kind and what stands beside it. -/
def tagged? : Value → Option (String × Body)
  | .object members =>
    match only? kindKey members with
    | some (.text (some kind)) => some (kind, .members members)
    | _ => none
  | .array (.text (some kind) :: items) => some (kind, .items items)
  | _ => none

end Value

end Chip8.Json
