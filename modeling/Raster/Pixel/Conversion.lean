import Raster.Binary.Conversion
import Raster.Pixel.Complex
import Raster.Pixel.Rgba

/-!
# Kinds of values and the conversions between them

A value is a number, a complex number or a colour. Numbers convert into each other by way of the
double that is nearest to them: an integer target takes the nearest integer in its range. A number
becomes a complex number without imaginary part or an opaque gray, and a colour becomes a number by
its luma. Nothing turns a complex number or a colour into the other, or a complex number into a
plain one.
-/

namespace Raster

/-- The kinds of numbers: naturals of some width, 32-bit integers, and binary numbers. -/
inductive NumberKind where
  | natural (bits : Nat)
  | integer32
  | binary (f : BinaryFormat)
  deriving DecidableEq

namespace NumberKind

def Value : NumberKind → Type
  | natural bits => Level bits
  | integer32 => Int32
  | binary f => Binary f

def toDouble : (k : NumberKind) → k.Value → Double
  | natural _, (x : Level _) => Binary.ofNat x.toNat
  | integer32, (x : Int32) => Binary.ofInt x.toInt
  | binary .single, (x : Single) => x.toDouble
  | binary .double, (x : Double) => x

def ofDouble : (k : NumberKind) → Double → k.Value
  | natural bits, x => (Level.ofNat (x.nearestWithin 0 (Level.limit bits)).toNat : Level bits)
  | integer32, x => Int32.ofInt (x.nearestWithin Int32.minValue.toInt Int32.maxValue.toInt)
  | binary .single, x => x.toSingle
  | binary .double, x => x

end NumberKind

inductive ValueKind where
  | number (k : NumberKind)
  | complex
  | rgba (bits : Nat)
  deriving DecidableEq

def ValueKind.Value : ValueKind → Type
  | number k => k.Value
  | complex => Complex
  | rgba bits => Rgba bits

/-- The conversions from one kind of values to another. -/
inductive Conversion : ValueKind → ValueKind → Type where
  /-- The nearest number of the other kind. -/
  | number (j k : NumberKind) : Conversion (.number j) (.number k)
  /-- The complex number with this real part. -/
  | toComplex (k : NumberKind) : Conversion (.number k) .complex
  /-- The opaque gray of this level. -/
  | toRgba (k : NumberKind) (bits : Nat) : Conversion (.number k) (.rgba bits)
  /-- The complex number itself. -/
  | complex : Conversion .complex .complex
  /-- The number nearest to the luma of a colour. -/
  | luma (bits : Nat) (k : NumberKind) : Conversion (.rgba bits) (.number k)
  /-- The colour with each channel limited to the new range. -/
  | rgba (bits other : Nat) : Conversion (.rgba bits) (.rgba other)

namespace Conversion

/-- Every value can be converted: nothing fails, whatever lies out of range is limited to it. -/
def apply : {s t : ValueKind} → Conversion s t → s.Value → t.Value
  | _, _, number j k, x => k.ofDouble (j.toDouble x)
  | _, _, toComplex k, x => Complex.ofReal (k.toDouble x).toSingle
  | _, _, toRgba k bits, x => Rgba.gray ((NumberKind.natural bits).ofDouble (k.toDouble x))
  | _, _, complex, z => z
  | _, _, luma _ k, (c : Rgba _) => k.ofDouble c.luma
  | _, _, rgba _ _, (c : Rgba _) => c.map fun x => Level.ofNat x.toNat

def ofNumber (k : NumberKind) : (t : ValueKind) → Conversion (.number k) t
  | .number j => number k j
  | .complex => toComplex k
  | .rgba bits => toRgba k bits

/-- The conversion between two kinds, if there is one. -/
def find? : (s t : ValueKind) → Option (Conversion s t)
  | .number j, .number k => some (number j k)
  | .number k, .complex => some (toComplex k)
  | .number k, .rgba bits => some (toRgba k bits)
  | .complex, .complex => some complex
  | .rgba bits, .number k => some (luma bits k)
  | .rgba bits, .rgba other => some (rgba bits other)
  | .complex, .number _ => none
  | .complex, .rgba _ => none
  | .rgba _, .complex => none

end Conversion

end Raster
