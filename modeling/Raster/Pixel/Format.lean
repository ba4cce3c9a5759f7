import Raster.Pixel.Conversion

/-!
# Pixel formats

The six formats that an image can have, the values of their pixels, and pixel arithmetic and order.
-/

namespace Raster

inductive PixelFormat where
  | gray8
  | gray16
  | grayFloat
  | complexFloat
  | rgba8
  | rgba16
  deriving DecidableEq

namespace PixelFormat

def kind : PixelFormat → ValueKind
  | gray8 => .number (.natural 8)
  | gray16 => .number (.natural 16)
  | grayFloat => .number (.binary .single)
  | complexFloat => .complex
  | rgba8 => .rgba 8
  | rgba16 => .rgba 16

def tag : PixelFormat → String
  | gray8 => "g8"
  | gray16 => "g16"
  | grayFloat => "gf"
  | complexFloat => "cf"
  | rgba8 => "rgba8"
  | rgba16 => "rgba16"

/-- The formats whose pixels are single levels. Only they have remainders. -/
inductive IsLevel : PixelFormat → Prop where
  | gray8 : IsLevel gray8
  | gray16 : IsLevel gray16

instance : DecidablePred IsLevel
  | gray8 => isTrue .gray8
  | gray16 => isTrue .gray16
  | grayFloat => isFalse nofun
  | complexFloat => isFalse nofun
  | rgba8 => isFalse nofun
  | rgba16 => isFalse nofun

end PixelFormat

def Pixel (f : PixelFormat) : Type :=
  f.kind.Value

namespace Pixel

variable {f : PixelFormat}

/-- The black pixel, without opacity: all channels are zero. -/
def zero : (f : PixelFormat) → Pixel f
  | .gray8 => (default : Level 8)
  | .gray16 => (default : Level 16)
  | .grayFloat => (default : Single)
  | .complexFloat => (default : Complex)
  | .rgba8 => (default : Rgba 8)
  | .rgba16 => (default : Rgba 16)

instance : Inhabited (Pixel f) := ⟨zero f⟩

/-- The pixel operation that is given for levels, for single-precision numbers and for complex
numbers. Colours take the operation on levels in each channel. -/
def zipWith (level : {bits : Nat} → Level bits → Level bits → Level bits)
    (number : Single → Single → Single) (complex : Complex → Complex → Complex) :
    {f : PixelFormat} → Pixel f → Pixel f → Pixel f
  | .gray8, p, q => @level 8 p q
  | .gray16, p, q => @level 16 p q
  | .grayFloat, p, q => number p q
  | .complexFloat, p, q => complex p q
  | .rgba8, p, q => @Rgba.zipWith 8 level p q
  | .rgba16, p, q => @Rgba.zipWith 16 level p q

instance : Add (Pixel f) := ⟨zipWith (· + ·) (· + ·) (· + ·)⟩
instance : Sub (Pixel f) := ⟨zipWith (· - ·) (· - ·) (· - ·)⟩
instance : Mul (Pixel f) := ⟨zipWith (· * ·) (· * ·) (· * ·)⟩
instance : Div (Pixel f) := ⟨zipWith (· / ·) (· / ·) (· / ·)⟩

def mod : {f : PixelFormat} → f.IsLevel → Pixel f → Pixel f → Pixel f
  | .gray8, _, (p : Level 8), (q : Level 8) => p % q
  | .gray16, _, (p : Level 16), (q : Level 16) => p % q

/-- The order of two pixels. Pixels with a component that is not a number may have none. -/
def compare? : {f : PixelFormat} → Pixel f → Pixel f → Option Ordering
  | .gray8, (p : Level 8), q => some (p.compare q)
  | .gray16, (p : Level 16), q => some (p.compare q)
  | .grayFloat, (p : Single), q => p.compare? q
  | .complexFloat, (p : Complex), q => p.compare? q
  | .rgba8, (p : Rgba 8), q => some (p.compare q)
  | .rgba16, (p : Rgba 16), q => some (p.compare q)

def lessThan (p q : Pixel f) : Bool :=
  p.compare? q == some .lt

/-- How the pixels of a format are read as numbers, if they are single numbers. -/
def toDouble? : (f : PixelFormat) → Option (Pixel f → Double)
  | .gray8 => some (NumberKind.natural 8).toDouble
  | .gray16 => some (NumberKind.natural 16).toDouble
  | .grayFloat => some (NumberKind.binary .single).toDouble
  | .complexFloat => none
  | .rgba8 => none
  | .rgba16 => none

/-- The words of the channels, in order. They are what an image holds in memory. -/
def words : {f : PixelFormat} → Pixel f → List Nat
  | .gray8, (p : Level 8) => [p.toNat]
  | .gray16, (p : Level 16) => [p.toNat]
  | .grayFloat, (p : Single) => [p.bits]
  | .complexFloat, (p : Complex) => [p.re.bits, p.im.bits]
  | .rgba8, (p : Rgba 8) => p.channels.map Level.toNat
  | .rgba16, (p : Rgba 16) => p.channels.map Level.toNat

/-- Pixels with the same words are the same pixel. -/
theorem words_injective {p q : Pixel f} (h : p.words = q.words) : p = q := by
  cases f
  case gray8 => exact Level.ext (List.head_eq_of_cons_eq h)
  case gray16 => exact Level.ext (List.head_eq_of_cons_eq h)
  case grayFloat => exact Binary.bits_injective (List.head_eq_of_cons_eq h)
  case complexFloat =>
    obtain ⟨re, im⟩ : Complex := p
    obtain ⟨re', im'⟩ : Complex := q
    simp only [words, List.cons.injEq, and_true] at h
    rw [Binary.bits_injective h.1, Binary.bits_injective h.2]
  case rgba8 =>
    obtain ⟨r, g, b, a⟩ : Rgba 8 := p
    obtain ⟨r', g', b', a'⟩ : Rgba 8 := q
    simp only [words, Rgba.channels, List.map_cons, List.map_nil, List.cons.injEq, and_true] at h
    rw [Level.ext h.1, Level.ext h.2.1, Level.ext h.2.2.1, Level.ext h.2.2.2]
  case rgba16 =>
    obtain ⟨r, g, b, a⟩ : Rgba 16 := p
    obtain ⟨r', g', b', a'⟩ : Rgba 16 := q
    simp only [words, Rgba.channels, List.map_cons, List.map_nil, List.cons.injEq, and_true] at h
    rw [Level.ext h.1, Level.ext h.2.1, Level.ext h.2.2.1, Level.ext h.2.2.2]

end Pixel

end Raster
