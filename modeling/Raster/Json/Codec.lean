import Raster.Grid
import Raster.Json.Number

/-!
# JSON forms of geometry and grid options

A structure is written as an object with its fields in order. It is read from an object with its
fields in any order, where other members do not matter, or from an array of its field values.
-/

namespace Raster

namespace Json

/-- The value of the only member with the given name, or nothing if there is none. More than one
such member is refused. -/
def member? (name : String) (members : List (Option String × Json)) : Option (Option Json) :=
  match members.filter fun (key, _) => key == some name with
  | [] => some none
  | [(_, value)] => some (some value)
  | _ => none

/-- The values of the named fields. An array gives them in order, and may be too short but not too
long. The names of an object's members must all be texts. -/
def fields? (names : List String) : Json → Option (List (Option Json))
  | array items =>
    if items.length ≤ names.length then
      some (items.map some ++ List.replicate (names.length - items.length) none)
    else none
  | object members =>
    if members.all fun (key, _) => key.isSome then names.mapM (member? · members) else none
  | _ => none

def toUInt32? : Json → Option UInt32
  | number n => n.toUInt32?
  | _ => none

def toDouble? : Json → Option Double
  | number n => n.toDouble?
  | _ => none

/-- The two values of a structure that has two fields, both of which must be there. -/
def pair? {α : Type} (first second : String) (decode : Json → Option α) (json : Json) :
    Option (α × α) := do
  let [x, y] ← json.fields? [first, second] | none
  return (← decode (← x), ← decode (← y))

def objectText (members : List (String × String)) : String :=
  let texts := members.map fun (name, value) => "\"" ++ name ++ "\":" ++ value
  "\x7b" ++ ",".intercalate texts ++ "\x7d"

/-- How numbers are written. What is not finite has no number text. -/
def style : Style where
  plainRange := some (-5, 15)
  pointZero := true
  plusSign := true
  tie := .toEven
  notANumber := "null"
  infinity := "null"
  negativeInfinity := "null"

end Json

namespace Point

def toJson (p : Point) : String :=
  Json.objectText [("x", toString p.x.toNat), ("y", toString p.y.toNat)]

def ofJson? (json : Json) : Option Point :=
  (json.pair? "x" "y" Json.toUInt32?).map fun (x, y) => ⟨x, y⟩

end Point

namespace Size

def toJson (s : Size) : String :=
  Json.objectText [("width", toString s.width.toNat), ("height", toString s.height.toNat)]

def ofJson? (json : Json) : Option Size :=
  (json.pair? "width" "height" Json.toUInt32?).map fun (width, height) => ⟨width, height⟩

end Size

namespace Rect

def toJson (r : Rect) : String :=
  Json.objectText [("origin", r.origin.toJson), ("size", r.size.toJson)]

def ofJson? (json : Json) : Option Rect := do
  let [origin, size] ← json.fields? ["origin", "size"] | none
  return ⟨← Point.ofJson? (← origin), ← Size.ofJson? (← size)⟩

end Rect

namespace GridOptions

def toJson (options : GridOptions) : String :=
  Json.objectText [("window", options.window.toJson),
    ("overlap", Json.style.render options.overlap)]

/-- The options, with the default overlap if none is given. -/
def ofJson? (json : Json) : Option GridOptions := do
  let [window, overlap] ← json.fields? ["window", "overlap"] | none
  let window ← Size.ofJson? (← window)
  match overlap with
  | none => return ofWindow window
  | some overlap => return ⟨window, ← overlap.toDouble?⟩

end GridOptions

end Raster
