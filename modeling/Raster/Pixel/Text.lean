import Raster.Decimal.Style
import Raster.Listing
import Raster.Pixel.Format

/-!
# Pixels as text

Every pixel has a listing that names its type. Single numbers and complex numbers also have a plain
text.
-/

namespace Raster

/-- The name of the type of a format's pixels. -/
def PixelFormat.typeName : PixelFormat → String
  | gray8 => "G8"
  | gray16 => "G16"
  | grayFloat => "GF"
  | complexFloat => "CF"
  | rgba8 => "Rgba8"
  | rgba16 => "Rgba16"

def Complex.fields (z : Complex) : List (String × String) :=
  [("re", Style.listing.render z.re), ("im", Style.listing.render z.im)]

def Rgba.fields {bits : Nat} (c : Rgba bits) : List (String × String) :=
  ["r", "g", "b", "a"].zip (c.channels.map fun x => toString x.toNat)

namespace Pixel

def listing : {f : PixelFormat} → Pixel f → Listing
  | .gray8, (p : Level 8) => .tuple PixelFormat.gray8.typeName (toString p.toNat)
  | .gray16, (p : Level 16) => .tuple PixelFormat.gray16.typeName (toString p.toNat)
  | .grayFloat, (p : Single) => .tuple PixelFormat.grayFloat.typeName (Style.listing.render p)
  | .complexFloat, (p : Complex) => .record PixelFormat.complexFloat.typeName p.fields
  | .rgba8, (p : Rgba 8) => .record PixelFormat.rgba8.typeName p.fields
  | .rgba16, (p : Rgba 16) => .record PixelFormat.rgba16.typeName p.fields

/-- The text without a type name. Colours have none. -/
def plainText? : {f : PixelFormat} → Pixel f → Option String
  | .gray8, (p : Level 8) => some (toString p.toNat)
  | .gray16, (p : Level 16) => some (toString p.toNat)
  | .grayFloat, (p : Single) => some (Style.plain.render p)
  | .complexFloat, (p : Complex) =>
    some ("(" ++ Style.plain.render p.re ++ ", " ++ Style.plain.render p.im ++ ")")
  | .rgba8, _ => none
  | .rgba16, _ => none

end Pixel

end Raster
