import Raster.Decimal.Style
import Raster.Geometry

/-!
# Failures

An error is a refusal that the caller can act on, such as operands of different sizes. An
operation fails with an error or with a fault, or because it names an image that is not there.
-/

namespace Raster

inductive Error where
  | lineOutOfRange (line height : UInt32)
  | viewOutOfBounds (rect : Rect) (bounds : Size)
  | dataLength (expected actual : Nat)
  | geometryMismatch (left right : Size)
  | emptyImage (size : Size)
  | emptyWindow (size : Size)
  | overlapOutOfRange (overlap : Double)
  | zeroOverlap (overlap : Double) (window : Size)
  | windowTooLarge (window image : Size)
  deriving DecidableEq

namespace Error

def name : Error → String
  | lineOutOfRange .. => "LineOutOfRange"
  | viewOutOfBounds .. => "ViewOutOfBounds"
  | dataLength .. => "DataLength"
  | geometryMismatch .. => "GeometryMismatch"
  | emptyImage .. => "EmptyImage"
  | emptyWindow .. => "EmptyWindow"
  | overlapOutOfRange .. => "OverlapOutOfRange"
  | zeroOverlap .. => "ZeroOverlap"
  | windowTooLarge .. => "WindowTooLarge"

def message : Error → String
  | lineOutOfRange line height =>
    s!"line out of range ({line.toNat}, max is: {height.toNat})"
  | viewOutOfBounds rect bounds =>
    s!"view {rect.text} exceeds source bounds {bounds.spacedText}"
  | dataLength expected actual =>
    s!"data length ({actual}) must equal width * height ({expected})"
  | geometryMismatch left right =>
    s!"expression operands disagree in geometry: {left.spacedText} vs {right.spacedText}"
  | emptyImage size =>
    s!"image size must be non-zero (got {size.spacedText})"
  | emptyWindow size =>
    s!"interrogation size must be non-zero (got {size.spacedText})"
  | overlapOutOfRange overlap =>
    s!"overlap must be between 0.0 and 1.0 (got {Style.plain.render overlap})"
  | zeroOverlap overlap window =>
    s!"overlap {Style.plain.render overlap} of window {window.spacedText} is zero pixels on at " ++
      "least one axis"
  | windowTooLarge window image =>
    s!"interrogation size {window.spacedText} is bigger than image {image.spacedText}"

end Error

inductive Failure where
  | error (e : Error)
  | fault (f : Fault)
  /-- A name that no image has. -/
  | unknownImage (name : String)
  /-- An image that is not of the format that the operation is for. -/
  | otherFormat (name : String)
  deriving DecidableEq

instance : MonadLift (Except Fault) (Except Failure) := ⟨Except.mapError .fault⟩

instance : MonadLift (Except Error) (Except Failure) := ⟨Except.mapError .error⟩

end Raster
