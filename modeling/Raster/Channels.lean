import Raster.Image
import Raster.Pixel.Conversion

/-!
# Channels as images

Complex images and colour images are taken apart into one image for each channel, and channels are
put together again.
-/

namespace Raster.Image

def requireSameSize {α β : Type} (a : Image α) (b : Image β) : Except Error Unit :=
  if a.size = b.size then .ok () else .error (.geometryMismatch a.size b.size)

/-- The image of the same size with other pixels. -/
def withPixels {α β : Type} [Inhabited β] (img : Image α) (pixels : Array β) : Image β :=
  (zeroed img.width img.height).overwrite pixels

def channel {α β : Type} [Inhabited β] (img : Image α) (select : α → β) : Image β :=
  img.withPixels (img.data.toArray.map select)

def splitComplex (img : Image Complex) : Image Single × Image Single :=
  (img.channel Complex.re, img.channel Complex.im)

/-- The complex image of a real and an imaginary part of one size. -/
def joinComplex (re im : Image Single) : Except Error (Image Complex) := do
  requireSameSize re im
  return re.withPixels (Array.zipWith Complex.mk re.data.toArray im.data.toArray)

def splitRgba {bits : Nat} (img : Image (Rgba bits)) :
    Image (Level bits) × Image (Level bits) × Image (Level bits) × Image (Level bits) :=
  (img.channel Rgba.r, img.channel Rgba.g, img.channel Rgba.b, img.channel Rgba.a)

/-- The luma of red, green and blue images of one size, whose pixels are read as numbers. -/
def grayscale {α : Type} (toDouble : α → Double) (r g b : Image α) :
    Except Error (Image Single) := do
  requireSameSize r g
  requireSameSize r b
  let colours := r.data.toArray.zip (g.data.toArray.zip b.data.toArray)
  return r.withPixels <| colours.map fun (r, g, b) =>
    (luma (toDouble r) (toDouble g) (toDouble b)).toSingle

end Raster.Image
