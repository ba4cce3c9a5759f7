import Raster.Binary.Rounding

/-!
# Conversion to another format or to an integer

A change of format rounds to the nearest number and keeps sign and leading payload of a value that
is not a number. A change to an integer is clamped to the integer type's range, and takes what is
not a number to 0.
-/

namespace Raster.Binary

variable {f : BinaryFormat}

def toFormat (g : BinaryFormat) (x : Binary f) : Binary g :=
  if x.isNaN then
    -- The leading bits of the payload are kept: one of the two shifts is by zero.
    nan x.negative
      (x.fraction <<< (g.fractionBits - f.fractionBits) >>> (f.fractionBits - g.fractionBits))
  else if x.isInfinite then infinity x.negative
  else ofQuotient x.negative x.significand 1 x.exponent

abbrev toSingle (x : Binary f) : Single :=
  x.toFormat .single

abbrev toDouble (x : Binary f) : Double :=
  x.toFormat .double

/-- The integer that `round n d`, a rounding of the quotient of two naturals, gives for the number
`n / d`, limited to the range from `low` to `high`. -/
def toIntWithin (round : Nat → Nat → Nat) (low high : Int) (x : Binary f) : Int :=
  if x.isNaN then 0
  else if x.isInfinite then if x.negative then low else high
  else
    let size := round (x.significand <<< x.exponent.toNat) (1 <<< (-x.exponent).toNat)
    max low (min high (if x.negative then -size else size))

/-- The nearest integer, a tie going away from zero, limited to the range. -/
def nearestWithin (low high : Int) (x : Binary f) : Int :=
  x.toIntWithin roundHalfUp low high

def truncatedWithin (low high : Int) (x : Binary f) : Int :=
  x.toIntWithin (· / ·) low high

end Raster.Binary
