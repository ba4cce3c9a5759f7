import Raster.Storage
import Raster.View

/-!
# Images

An image owns the pixels of a width times a height, row by row without gaps. The pixel at column `x`
of row `y` has the linear index `y · width + x`.
-/

namespace Raster

/-- The count of pixels that an image holds inline. -/
def inlineCapacity : Nat :=
  1024

structure Image (α : Type) where
  width : UInt32
  height : UInt32
  storage : Storage α inlineCapacity

/-- A pixel of an image: by its linear index or by its column and row. -/
inductive Position where
  | linear (index : Nat)
  | cell (x y : UInt32)
  deriving DecidableEq

namespace Image

variable {α : Type}

/-! ### Construction -/

def blank [Inhabited α] : Image α :=
  ⟨0, 0, .blank⟩

instance [Inhabited α] : Inhabited (Image α) := ⟨blank⟩

def filled (width height : UInt32) (value : α) : Image α :=
  ⟨width, height, .filled (Size.area ⟨width, height⟩) value⟩

/-- The image whose pixels all have the default value. -/
def zeroed [Inhabited α] (width height : UInt32) : Image α :=
  filled width height default

/-- The image of the given pixels, which must be as many as the size tells. -/
def ofArray [Inhabited α] (width height : UInt32) (pixels : Array α) : Except Error (Image α) :=
  let expected := Size.area ⟨width, height⟩
  if pixels.size = expected then .ok ⟨width, height, .ofArray pixels⟩
  else .error (.dataLength expected pixels.size)

/-! ### Geometry -/

def size (img : Image α) : Size :=
  ⟨img.width, img.height⟩

def rect (img : Image α) : Rect :=
  .ofSize img.size

def pixelCount (img : Image α) : Nat :=
  img.storage.length

def isEmpty (img : Image α) : Bool :=
  img.storage.isEmpty

def isInline (img : Image α) : Bool :=
  img.storage.isInline

/-- The image with another size. Nothing happens if that is the size it has. Otherwise all pixels
become the fill, or remain unspecified if there is none. -/
def resize [Inhabited α] (img : Image α) (size : Size) (fill : Option α) :
    Image α × Option Reselection :=
  if size = img.size then (img, none)
  else
    let (storage, told) := img.storage.setLength size.area fill
    (⟨size.width, size.height, storage⟩, told)

/-! ### Reading -/

/-- The pixels row by row. -/
def data (img : Image α) : Slice α :=
  img.storage.items

/-- The linear index of a pixel. Only a position by column and row is checked here. -/
def indexOf (img : Image α) : Position → Except Fault Nat
  | .linear i => .ok i
  | .cell x y =>
    if x < img.width ∧ y < img.height then .ok (y.toNat * img.width.toNat + x.toNat)
    else .error (.pixelOutsideImage x y img.width img.height)

def get (img : Image α) (p : Position) : Except Fault α := do
  img.data.read (← img.indexOf p)

/-- The linear index at which row `y` starts. -/
def lineStart (img : Image α) (y : UInt32) : Except Error Nat :=
  if img.height ≤ y then .error (.lineOutOfRange y img.height)
  else .ok (y.toNat * img.width.toNat)

def line (img : Image α) (y : UInt32) : Except Failure (Slice α) := do
  let start ← img.lineStart y
  img.data.extract start (start + img.width.toNat)

/-- All pixels in row-major order, each after its position. -/
def pixels (img : Image α) : List (UInt32 × UInt32 × α) :=
  let width := max img.width.toNat 1
  img.data.toList.zipIdx.map fun (v, i) => (UInt32.ofNat (i % width), UInt32.ofNat (i / width), v)

/-! ### Views -/

def asView (img : Image α) : View α :=
  ⟨img.data, img.width, img.height, img.width.toNat⟩

def view (img : Image α) (rect : Rect) : Except Failure (View α) :=
  img.asView.subView rect

/-! ### Writing -/

def set (img : Image α) (p : Position) (value : α) : Except Fault (Image α) := do
  let storage ← img.storage.set (← img.indexOf p) value
  return { img with storage }

/-- Replaces every pixel by what the rule makes of its index and old value. -/
def apply (img : Image α) (rule : Nat → α → α) : Image α :=
  { img with storage := img.storage.modify rule }

def fill (img : Image α) (value : α) : Image α :=
  img.apply fun _ _ => value

/-- Writes the given values to the first pixels. What exceeds the image is ignored. -/
def overwrite (img : Image α) (values : Array α) : Image α :=
  img.apply fun i old => values[i]?.getD old

/-- Replaces every pixel of row `y` by what the rule makes of its column and old value. -/
def applyLine (img : Image α) (y : UInt32) (rule : Nat → α → α) : Except Error (Image α) := do
  let start ← img.lineStart y
  return img.apply fun i old =>
    if start ≤ i ∧ i < start + img.width.toNat then rule (i - start) old else old

def setInLine (img : Image α) (y : UInt32) (x : Nat) (value : α) : Except Failure (Image α) := do
  let start ← img.lineStart y
  if x < img.width.toNat then img.set (.linear (start + x)) value
  else throw (.fault (.indexOutOfBounds img.width.toNat x))

/-- Writes every pixel in order, each with what the rule makes of the pixels so far. A fault of the
rule ends the writing. -/
def writeEach (img : Image α) (rule : Slice α → Nat → Except Fault α) : Image α × Option Fault :=
  let (storage, fault) := img.storage.writeEach fun s i => rule s.items i
  ({ img with storage }, fault)

end Image

/-- The pixels of a view as an image of their own. -/
def View.toImage {α : Type} [Inhabited α] (v : View α) : Except Fault (Image α) := do
  return (Image.zeroed v.width v.height).overwrite (← v.values)

end Raster
