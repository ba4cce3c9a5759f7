import Raster.Coordinate
import Raster.Listing

/-!
# Points, sizes and rectangles

Pixel coordinates are 32-bit naturals that start at the first pixel. The corners of a rectangle are
named with the origin at the bottom left, and a corner that a coordinate cannot hold is a fault.
Containment is decided on exact sums, so it never faults.
-/

namespace Raster

structure Point where
  x : UInt32
  y : UInt32
  deriving DecidableEq, Inhabited

structure Size where
  width : UInt32
  height : UInt32
  deriving DecidableEq, Inhabited

/-- The rectangle of a size at an origin. -/
structure Rect where
  origin : Point
  size : Size
  deriving DecidableEq, Inhabited

namespace Point

/-- The point `dx` to the right of and `dy` above this one. -/
def shift (p : Point) (dx dy : UInt32) : Except Fault Point := do
  let x ← Coordinate.add p.x dx
  let y ← Coordinate.add p.y dy
  return ⟨x, y⟩

def text (p : Point) : String :=
  "(" ++ Fault.pair p.x p.y ++ ")"

def listing (p : Point) : Listing :=
  .record "Point" [("x", toString p.x.toNat), ("y", toString p.y.toNat)]

end Point

namespace Size

/-- The count of pixels, which can exceed what a coordinate holds. -/
def area (s : Size) : Nat :=
  s.width.toNat * s.height.toNat

def text (s : Size) : String :=
  "[" ++ Fault.pair s.width s.height ++ "]"

/-- The text with a blank after the comma. -/
def spacedText (s : Size) : String :=
  "[" ++ toString s.width.toNat ++ ", " ++ toString s.height.toNat ++ "]"

def listing (s : Size) : Listing :=
  .record "Size" [("width", toString s.width.toNat), ("height", toString s.height.toNat)]

end Size

namespace Rect

/-- The rectangle of this size at the first pixel. -/
def ofSize (s : Size) : Rect :=
  ⟨⟨0, 0⟩, s⟩

def area (r : Rect) : Nat :=
  r.size.area

def bottomLeft (r : Rect) : Point :=
  r.origin

def bottomRight (r : Rect) : Except Fault Point :=
  r.origin.shift r.size.width 0

def topLeft (r : Rect) : Except Fault Point :=
  r.origin.shift 0 r.size.height

def topRight (r : Rect) : Except Fault Point :=
  r.origin.shift r.size.width r.size.height

/-- The centre, rounded down. -/
def midpoint (r : Rect) : Except Fault Point :=
  r.origin.shift (r.size.width / 2) (r.size.height / 2)

/-- Whether `inner` lies inside `outer`, where edges may touch. -/
def contains (outer inner : Rect) : Bool :=
  decide (outer.origin.x.toNat ≤ inner.origin.x.toNat) &&
  decide (outer.origin.y.toNat ≤ inner.origin.y.toNat) &&
  decide (inner.origin.x.toNat + inner.size.width.toNat
    ≤ outer.origin.x.toNat + outer.size.width.toNat) &&
  decide (inner.origin.y.toNat + inner.size.height.toNat
    ≤ outer.origin.y.toNat + outer.size.height.toNat)

def within (r outer : Rect) : Bool :=
  outer.contains r

def text (r : Rect) : String :=
  r.origin.text ++ " -> " ++ r.size.text

def listing (r : Rect) : Listing :=
  .record "Rect" [("origin", r.origin.listing.inline), ("size", r.size.listing.inline)]

end Rect

end Raster
