import Raster.Binary.Arithmetic
import Raster.Binary.Conversion
import Raster.Log

/-!
# Grids of windows

A grid covers an image with windows of one size at equal distances. The distance along an axis is
the integer part of the window's extent times a fraction, the overlap. As many windows as fit are
laid out, and the margin that is left is divided between both sides.
-/

namespace Raster

namespace Grid

/-- The distance between consecutive windows along an axis. -/
def step (window : UInt32) (overlap : Double) : UInt32 :=
  UInt32.ofNat ((Binary.ofNat window.toNat * overlap).truncatedWithin 0 (UInt32.size - 1)).toNat

/-- The windows along an axis: how many there are, and the margin before the first. -/
structure Axis where
  count : UInt32
  offset : UInt32
  step : UInt32
  deriving DecidableEq

namespace Axis

/-- The axis of an image's extent, for windows that fit into it. -/
def layout (extent window step : UInt32) : Except Fault Axis := do
  let room ← Coordinate.sub extent window
  let count ← Coordinate.add 1 (← Coordinate.div room step)
  let used ← Coordinate.mul step (← Coordinate.sub count 1)
  let offset := (← Coordinate.sub room used) / 2
  return ⟨count, offset, step⟩

/-- The coordinate at which the window of this number starts. -/
def start (axis : Axis) (number : UInt32) : Except Fault UInt32 := do
  Coordinate.add axis.offset (← Coordinate.mul number axis.step)

def numbers (axis : Axis) : List UInt32 :=
  (List.range axis.count.toNat).map UInt32.ofNat

end Axis

def windows (columns rows : Axis) (window : Size) : Except Fault (List Rect) := do
  let lines ← rows.numbers.mapM fun r => columns.numbers.mapM fun c => do
    let x ← columns.start c
    let y ← rows.start r
    return (⟨⟨x, y⟩, window⟩ : Rect)
  return lines.flatten

/-- Refuses what has no grid. The first condition that fails is the one reported. -/
def check (image window : Size) (overlap : Double) : Except Error Unit :=
  if image.area = 0 then .error (.emptyImage image)
  else if window.area = 0 then .error (.emptyWindow window)
  else if !(Binary.zero.atMost overlap && overlap.atMost (Binary.ofNat 1)) then
    .error (.overlapOutOfRange overlap)
  else if step window.width overlap = 0 ∨ step window.height overlap = 0 then
    .error (.zeroOverlap overlap window)
  else if image.width < window.width ∨ image.height < window.height then
    .error (.windowTooLarge window image)
  else .ok ()

/-- The windows that cover an image, and the record of them. -/
def generate (image window : Size) (overlap : Double) :
    Except Failure (List Rect × List LogRecord) := do
  check image window overlap
  let columns ← Axis.layout image.width window.width (step window.width overlap)
  let rows ← Axis.layout image.height window.height (step window.height overlap)
  let rects ← windows columns rows window
  let summary : GridSummary :=
    { count := rects.length, window, image
      columns := columns.count.toNat, rows := rows.count.toNat
      stepX := columns.step.toNat, stepY := rows.step.toNat }
  return (rects, [.grid summary])

end Grid

/-- The size and the overlap of the windows of a grid. -/
structure GridOptions where
  window : Size
  overlap : Double
  deriving DecidableEq

namespace GridOptions

def defaultOverlap : Double :=
  Binary.ofDecimal false 5 (-1)

/-- Windows of the given size that overlap by half. -/
def ofWindow (window : Size) : GridOptions :=
  ⟨window, defaultOverlap⟩

instance : Inhabited GridOptions := ⟨ofWindow ⟨32, 32⟩⟩

def generate (options : GridOptions) (image : Size) :
    Except Failure (List Rect × List LogRecord) :=
  Grid.generate image options.window options.overlap

def listing (options : GridOptions) : Listing :=
  .record "GridOptions" [("window", options.window.listing.inline),
    ("overlap", Style.listing.render options.overlap)]

end GridOptions

end Raster
