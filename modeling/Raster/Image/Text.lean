import Raster.Image
import Raster.Pixel.Text

/-!
# Images as text

An image or view is listed by a header line and a preview of its first rows and columns.
-/

namespace Raster

def previewRows : Nat :=
  8

def previewColumns : Nat :=
  16

namespace View

variable {f : PixelFormat}

/-- The first pixels of row `y`, and a mark if there are more. -/
def previewLine (v : View (Pixel f)) (y : Nat) : Except Fault String := do
  let shown ← (List.range (min v.width.toNat previewColumns)).mapM fun x => do
    return (← v.get (UInt32.ofNat x) (UInt32.ofNat y)).listing.inline
  let mark := if previewColumns < v.width.toNat then ", ..." else ""
  return s!"  row {y}: [" ++ ", ".intercalate shown ++ mark ++ "]\n"

/-- The first rows, and a mark if there are more. -/
def preview (v : View (Pixel f)) : Except Fault String := do
  let lines ← (List.range (min v.height.toNat previewRows)).mapM v.previewLine
  let mark := if previewRows < v.height.toNat then "  ...\n" else ""
  return String.join lines ++ mark

/-- The text of a view: its size and stride, and its preview. -/
def listing (v : View (Pixel f)) : Except Fault String := do
  let header := s!"ImageView<{f.tag}> \x7b {Fault.extent v.width v.height}, stride={v.stride} \x7d\n"
  return header ++ (← v.preview)

end View

namespace Image

variable {f : PixelFormat}

def caption (format : PixelFormat) (size : Size) : String :=
  s!"image<{format.tag}>{size.spacedText}"

def text (img : Image (Pixel f)) : String :=
  caption f img.size

/-- The text of an image: its size and storage kind, and its preview. -/
def listing (img : Image (Pixel f)) : Except Fault String := do
  let header :=
    s!"Image<{f.tag}> \x7b {Fault.extent img.width img.height}, {img.storage.kind.name} \x7d\n"
  return header ++ (← img.asView.preview)

end Image

end Raster
