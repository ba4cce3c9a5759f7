import Raster.Binary.Arithmetic
import Raster.Pixel.Format
import Raster.View

/-!
# Statistics

The range, the sum and the mean of the pixels of a view.
-/

namespace Raster.View

/-- Whether a pixel has a place in the order, so that it equals itself. -/
def isOrdered {f : PixelFormat} (p : Pixel f) : Bool :=
  (p.compare? p).isSome

/-- The least and the greatest pixel of a list, the first of those that are equal. -/
def bounds {f : PixelFormat} : List (Pixel f) → Option (Pixel f × Pixel f)
  | [] => none
  | first :: rest => some <| rest.foldl (fun (low, high) p =>
      (if p.lessThan low then p else low, if high.lessThan p then p else high)) (first, first)

/-- The least and the greatest pixel, without regard to pixels that have no place in the order. -/
def range {f : PixelFormat} (v : View (Pixel f)) : Except Fault (Option (Pixel f × Pixel f)) := do
  return bounds ((← v.values).toList.filter isOrdered)

/-- The sum of the numbers as which pixels are read, added to a negative zero from left to right. -/
def sum {α : Type} (toDouble : α → Double) (v : View α) : Except Fault Double := do
  return (← v.values).foldl (fun total p => total + toDouble p) (Binary.ofMagnitude true 0)

/-- The sum divided by the count, unless there are no pixels. -/
def mean {α : Type} (toDouble : α → Double) (v : View α) : Except Fault (Option Double) :=
  if v.pixelCount = 0 then .ok none
  else do return some ((← v.sum toDouble) / Binary.ofNat v.pixelCount)

end Raster.View
