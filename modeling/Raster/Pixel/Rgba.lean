import Raster.Binary.Arithmetic
import Raster.Pixel.Level

/-!
# Colours

A colour has a red, a green, a blue and an opacity channel. All arithmetic is channel by channel.
-/

namespace Raster

structure Rgba (bits : Nat) where
  r : Level bits
  g : Level bits
  b : Level bits
  a : Level bits
  deriving DecidableEq, Inhabited

namespace Rgba

variable {bits : Nat}

/-- The channels in order. -/
def channels (c : Rgba bits) : List (Level bits) :=
  [c.r, c.g, c.b, c.a]

/-- The opaque colour with the same level of red, green and blue. -/
def gray (x : Level bits) : Rgba bits :=
  ⟨x, x, x, Level.top⟩

def map {other : Nat} (op : Level bits → Level other) (c : Rgba bits) : Rgba other :=
  ⟨op c.r, op c.g, op c.b, op c.a⟩

def zipWith (op : Level bits → Level bits → Level bits) (c d : Rgba bits) : Rgba bits :=
  ⟨op c.r d.r, op c.g d.g, op c.b d.b, op c.a d.a⟩

/-- The order by the first channel in which two colours differ. -/
def compare (c d : Rgba bits) : Ordering :=
  (c.r.compare d.r).then ((c.g.compare d.g).then ((c.b.compare d.b).then (c.a.compare d.a)))

end Rgba

/-! ### Luma -/

/-- The weights of red, green and blue in the brightness of a colour (ITU-R BT.601). -/
def lumaRed : Double := Binary.ofDecimal false 299 (-3)

@[inherit_doc lumaRed] def lumaGreen : Double := Binary.ofDecimal false 587 (-3)

@[inherit_doc lumaRed] def lumaBlue : Double := Binary.ofDecimal false 114 (-3)

/-- The brightness of red, green and blue: their weighted sum, added from left to right. -/
def luma (r g b : Double) : Double :=
  lumaRed * r + lumaGreen * g + lumaBlue * b

/-- The brightness of a colour, whatever its opacity. -/
def Rgba.luma {bits : Nat} (c : Rgba bits) : Double :=
  Raster.luma (Binary.ofNat c.r.toNat) (Binary.ofNat c.g.toNat) (Binary.ofNat c.b.toNat)

end Raster
