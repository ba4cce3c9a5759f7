import Raster.Image.Text

/-!
# The log

Operations on images and grids tell what they did in records. A record is data, and its message is
written from it.
-/

namespace Raster

structure GridSummary where
  count : Nat
  window : Size
  image : Size
  columns : Nat
  rows : Nat
  stepX : Nat
  stepY : Nat
  deriving DecidableEq

inductive LogRecord where
  /-- A storage has changed its kind. -/
  | reselection (told : Reselection)
  /-- An expression is evaluated into an image, which still has this size. -/
  | evaluation (format : PixelFormat) (size : Size)
  /-- A grid of windows has been laid out. -/
  | grid (summary : GridSummary)
  deriving DecidableEq

namespace LogRecord

/-- The text of a record. That of an evaluation names the image before it changes. The type of the
expression, which a trace can tell too, is left out. -/
def message : LogRecord → String
  | reselection told => told.message
  | evaluation format size => "assign into " ++ Image.caption format size
  | grid s =>
    s!"grid: {s.count} windows of {s.window.text} over {s.image.text} " ++
      s!"({s.columns} x {s.rows}, step {s.stepX}x{s.stepY})"

end LogRecord

/-- The records of an operation on a storage. -/
def Reselection.records (told : Option Reselection) : List LogRecord :=
  told.toList.map .reselection

end Raster
