/-!
# Faults

A fault is a breach of an operation's contract by its caller: an index that does not exist or a
coordinate that cannot be represented. It carries what its message tells.
-/

namespace Raster

inductive Fault where
  /-- A position outside an image of the given width and height. -/
  | pixelOutsideImage (x y width height : UInt32)
  /-- A position outside a view of the given width and height. -/
  | pixelOutsideView (x y width height : UInt32)
  /-- A linear index outside a view of the given width and height. -/
  | indexOutsideView (index : Nat) (width height : UInt32)
  /-- An index past the end of a sequence. -/
  | indexOutOfBounds (length index : Nat)
  /-- A range that is not part of a sequence. -/
  | rangeOutOfBounds (length stop : Nat)
  | additionOverflow
  | subtractionOverflow
  | multiplicationOverflow
  | divisionByZero
  deriving DecidableEq

namespace Fault

/-- A position or an extent, as messages write it. -/
def pair (x y : UInt32) : String :=
  toString x.toNat ++ "," ++ toString y.toNat

def extent (width height : UInt32) : String :=
  toString width.toNat ++ "×" ++ toString height.toNat

def message : Fault → String
  | pixelOutsideImage x y width height =>
    s!"pixel ({pair x y}) out of bounds for image {extent width height}"
  | pixelOutsideView x y width height =>
    s!"ImageView pixel ({pair x y}) out of bounds for view {extent width height}"
  | indexOutsideView index width height =>
    s!"ImageView pixel {index} out of bounds for view {extent width height}"
  | indexOutOfBounds length index =>
    s!"index out of bounds: the len is {length} but the index is {index}"
  | rangeOutOfBounds length stop =>
    s!"range end index {stop} out of range for slice of length {length}"
  | additionOverflow => "attempt to add with overflow"
  | subtractionOverflow => "attempt to subtract with overflow"
  | multiplicationOverflow => "attempt to multiply with overflow"
  | divisionByZero => "attempt to divide by zero"

end Fault

end Raster
