/-!
# Listings of structured values

The text of a structured value: the name of its type and its fields, on one line or on a line each.
-/

namespace Raster

/-- A named value with its components already written. -/
inductive Listing where
  | tuple (name : String) (item : String)
  | record (name : String) (fields : List (String × String))

namespace Listing

def namedFields (fields : List (String × String)) : List String :=
  fields.map fun (name, value) => name ++ ": " ++ value

def inline : Listing → String
  | tuple name item => name ++ "(" ++ item ++ ")"
  | record name fields => name ++ " \x7b " ++ ", ".intercalate (namedFields fields) ++ " \x7d"

def indentedLine (item : String) : String :=
  "    " ++ item ++ ",\n"

/-- The text with a line for each component. -/
def indented : Listing → String
  | tuple name item => name ++ "(\n" ++ indentedLine item ++ ")"
  | record name fields =>
    name ++ " \x7b\n" ++ String.join ((namedFields fields).map indentedLine) ++ "\x7d"

end Listing

end Raster
