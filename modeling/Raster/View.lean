import Raster.Failure
import Raster.Slice

/-!
# Views

A view is a rectangular window onto the pixels of an image or of another view. It shares the buffer
of its parent: its data start at its first pixel and end at its last, and consecutive rows are one
stride apart, the stride being the width of the image at the bottom of the chain.

All reads of a view take positions in its own coordinates. `View.read` is the one that evaluation
uses. It leaves the check of its index to the data of the view.
-/

namespace Raster

/-- The size of the numbers that count pixels. -/
def wordSize : Nat :=
  UInt64.size

/-- The product plus the remainder, where neither step may leave the word. -/
def offsetOf (row stride column : Nat) : Except Fault Nat :=
  if wordSize ≤ row * stride then .error .multiplicationOverflow
  else if wordSize ≤ row * stride + column then .error .additionOverflow
  else .ok (row * stride + column)

structure View (α : Type) where
  /-- The parent's pixels from the first to the last of the view's own. -/
  data : Slice α
  width : UInt32
  height : UInt32
  /-- The distance between the starts of two consecutive rows. -/
  stride : Nat

namespace View

variable {α : Type}

def size (v : View α) : Size :=
  ⟨v.width, v.height⟩

def pixelCount (v : View α) : Nat :=
  v.size.area

/-- Whether the rows follow each other without gaps. -/
def isContiguous (v : View α) : Bool :=
  v.stride == v.width.toNat || decide (v.height.toNat ≤ 1)

/-! ### Reading -/

/-- The pixel at a row-major index. -/
def read (v : View α) (i : Nat) : Except Fault α :=
  -- Rows without gaps: the row-major index is the index into the data.
  if v.stride = v.width.toNat then v.data.read i
  else if v.width = 0 then .error .divisionByZero
  else do v.data.read (← offsetOf (i / v.width.toNat) v.stride (i % v.width.toNat))

/-- The pixel at a row-major index, which is checked against the size first. -/
def getLinear (v : View α) (i : Nat) : Except Fault α :=
  if i < v.pixelCount then do
    v.data.read (← offsetOf (i / v.width.toNat) v.stride (i % v.width.toNat))
  else .error (.indexOutsideView i v.width v.height)

/-- The pixel at column `x` of row `y`. -/
def get (v : View α) (x y : UInt32) : Except Fault α :=
  if x < v.width ∧ y < v.height then do
    v.data.read (← offsetOf y.toNat v.stride x.toNat)
  else .error (.pixelOutsideView x y v.width v.height)

/-- The pixels of row `y`, for a row of the view. -/
def row (v : View α) (y : Nat) : Except Fault (Slice α) :=
  v.data.extract (y * v.stride) (y * v.stride + v.width.toNat)

/-- The pixels of row `y`. -/
def line (v : View α) (y : UInt32) : Except Failure (Slice α) :=
  if v.height ≤ y then throw (.error (.lineOutOfRange y v.height))
  else if v.width = 0 then pure v.data.empty
  else liftM (v.row y.toNat)

/-- The rows that have pixels. -/
def rows (v : View α) : List Nat :=
  if v.width = 0 then [] else List.range v.height.toNat

/-- All pixels in row-major order. -/
def values (v : View α) : Except Fault (Array α) :=
  v.rows.foldlM (fun seen y => return seen ++ (← v.row y).toArray) #[]

/-- All pixels in row-major order, each after its position. -/
def pixels (v : View α) : Except Fault (List (UInt32 × UInt32 × α)) :=
  let positions := v.rows.flatMap fun y => (List.range v.width.toNat).map fun x =>
    (UInt32.ofNat x, UInt32.ofNat y)
  positions.mapM fun (x, y) => return (x, y, ← v.get x y)

/-! ### Windows -/

/-- The window of a rectangle in the coordinates of this view. An empty window may lie at the far
edge, where no pixels are left. -/
def subView (v : View α) (rect : Rect) : Except Failure (View α) :=
  if !(Rect.ofSize v.size).contains rect then throw (.error (.viewOutOfBounds rect v.size))
  else
    let window (data : Slice α) : View α := ⟨data, rect.size.width, rect.size.height, v.stride⟩
    -- At the far edge an empty window has no first pixel that its data could start at.
    if rect.area = 0 then pure (window v.data.empty)
    else do
      let start := rect.origin.y.toNat * v.stride + rect.origin.x.toNat
      -- The data end with the last pixel, not with the last row's stride.
      let stop := (rect.origin.y.toNat + rect.size.height.toNat - 1) * v.stride
        + rect.origin.x.toNat + rect.size.width.toNat
      return window (← v.data.extract start stop)

/-- The last of a chain of windows, each in the coordinates of the one before. -/
def subViews (v : View α) (rects : List Rect) : Except Failure (View α) :=
  rects.foldlM subView v

end View

end Raster
