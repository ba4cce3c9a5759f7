import Raster.Image
import Raster.Pixel.Format

/-!
# Equality of images

Two images are equal if they have the same size and the same words in their pixels. The words of a
value that is not a number equal themselves, and those of the two zeros differ.
-/

namespace Raster.Image

variable {f : PixelFormat}

def words (img : Image (Pixel f)) : List (List Nat) :=
  img.data.toList.map Pixel.words

protected def beq (a b : Image (Pixel f)) : Bool :=
  a.width == b.width && a.height == b.height && a.words == b.words

instance : BEq (Image (Pixel f)) := ⟨Image.beq⟩

end Raster.Image
