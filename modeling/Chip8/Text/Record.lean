/-!
# Labelled records

The text that shows a value to a person: its name, and its fields in braces.
-/

namespace Chip8.Text

/-- Names and texts of the fields of a value, in order. -/
abbrev Fields := List (String × String)

/-- The entries of a record between its braces. -/
def recordEntries (fields : Fields) : List String :=
  fields.map fun (name, text) => name ++ ": " ++ text

/-- A name and entries in braces; a value without entries is just its name. -/
def braced (name : String) (entries : List String) : String :=
  if entries.isEmpty then name
  else name ++ " \x7b " ++ ", ".intercalate entries ++ " \x7d"

/-- A value shown with all of its fields. -/
def record (name : String) (fields : Fields) : String :=
  braced name (recordEntries fields)

/-- A value shown with some of its fields; two dots stand for the others. -/
def openRecord (name : String) (fields : Fields) : String :=
  braced name (recordEntries fields ++ [".."])

/-- The text of a truth value. -/
def truth (b : Bool) : String := if b then "true" else "false"

end Chip8.Text
