import Raster.Binary.Basic

/-!
# Rounding to the nearest number

Every result is computed exactly, as a quotient of two integers times a power of two, and then
rounded once: to the nearest number of the format, a tie going to the one with an even
significand.
-/

namespace Raster

/-- The integer nearest to `n / d`. A tie goes to the even one. -/
def roundHalfEven (n d : Nat) : Nat :=
  let floor := n / d
  let rest := 2 * (n % d)
  if rest < d then floor else if d < rest then floor + 1 else floor + floor % 2

/-- The integer nearest to `n / d`. A tie goes up. -/
def roundHalfUp (n d : Nat) : Nat :=
  (2 * n + d) / (2 * d)

/-- The greatest power of two that is at most `n / d`, for positive `n` and `d`. -/
def quotientLog2 (n d : Nat) : Int :=
  -- With this many more bits the integer quotient is positive, so its logarithm is exact.
  let shift := d.log2 + 1
  ((n <<< shift) / d).log2 - shift

namespace Binary

variable {f : BinaryFormat}

/-- The power of two that weighs the last place of `n / d · 2^e` in format `f`. -/
def placeOf (f : BinaryFormat) (n d : Nat) (e : Int) : Int :=
  max f.lowestExponent (quotientLog2 n d + e - f.fractionBits)

/-- The number nearest to `n / d · 2^e`, with the given sign.

A significand `m` at place `p` has the magnitude word `m + (p - lowest) · 2^fractionBits`: the
leading bit of a normal significand adds one to the exponent field, and so does a significand that
rounding has carried into the next power of two. -/
def ofQuotient (negative : Bool) (n d : Nat) (e : Int) : Binary f :=
  if n = 0 then ofMagnitude negative 0
  else
    let place := placeOf f n d e
    -- One of the two shifts is by zero: the quotient is scaled to units of the place.
    let m := roundHalfEven (n <<< (e - place).toNat) (d <<< (place - e).toNat)
    ofMagnitude negative (m + (place - f.lowestExponent).toNat * f.leadingBit)

/-- The number nearest to `i · 2^e`. -/
def ofScaledInt (i : Int) (e : Int) : Binary f :=
  ofQuotient (decide (i < 0)) i.natAbs 1 e

def ofInt (i : Int) : Binary f :=
  ofScaledInt i 0

def ofNat (n : Nat) : Binary f :=
  ofScaledInt n 0

/-- The number nearest to `digits · 10^exponent`. -/
def ofDecimal (negative : Bool) (digits : Nat) (exponent : Int) : Binary f :=
  ofQuotient negative (digits * Nat.pow 10 exponent.toNat)
    (Nat.pow 10 (-exponent).toNat) 0

end Binary

end Raster
