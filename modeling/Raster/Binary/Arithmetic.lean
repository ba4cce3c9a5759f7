import Raster.Binary.Rounding

/-!
# Arithmetic

Sums, differences, products and quotients, each rounded once. An operation on a value that is not
a number yields the first such operand, made quiet.
-/

namespace Raster.Binary

variable {f : BinaryFormat}

/-- The first operand that is not a number, made quiet. -/
def firstNaN (x y : Binary f) : Binary f :=
  if x.isNaN then x.quiet else y.quiet

protected def neg (x : Binary f) : Binary f :=
  { x with negative := !x.negative }

/-- The signed significand of a finite number at a place at or below its own. -/
def scaledTo (x : Binary f) (place : Int) : Int :=
  let m : Int := x.significand <<< (x.exponent - place).toNat
  if x.negative then -m else m

/-- The sum. A zero sum is negative only if both operands are. -/
protected def add (x y : Binary f) : Binary f :=
  if x.isNaN || y.isNaN then firstNaN x y
  else if x.isInfinite then
    if y.isInfinite && x.negative != y.negative then invalid else x
  else if y.isInfinite then y
  else
    -- At the finer of the two places both operands are integers, so the sum is exact.
    let place := min x.exponent y.exponent
    let sum := x.scaledTo place + y.scaledTo place
    if sum = 0 then ofMagnitude (x.negative && y.negative) 0 else ofScaledInt sum place

protected def sub (x y : Binary f) : Binary f :=
  if x.isNaN || y.isNaN then firstNaN x y else Binary.add x (Binary.neg y)

protected def mul (x y : Binary f) : Binary f :=
  let negative := x.negative != y.negative
  if x.isNaN || y.isNaN then firstNaN x y
  else if x.isInfinite || y.isInfinite then
    if x.isZero || y.isZero then invalid else infinity negative
  else ofQuotient negative (x.significand * y.significand) 1 (x.exponent + y.exponent)

protected def div (x y : Binary f) : Binary f :=
  let negative := x.negative != y.negative
  if x.isNaN || y.isNaN then firstNaN x y
  else if x.isInfinite then
    if y.isInfinite then invalid else infinity negative
  else if y.isInfinite then ofMagnitude negative 0
  else if y.isZero then
    if x.isZero then invalid else infinity negative
  else ofQuotient negative x.significand y.significand (x.exponent - y.exponent)

instance : Neg (Binary f) := ⟨Binary.neg⟩
instance : Add (Binary f) := ⟨Binary.add⟩
instance : Sub (Binary f) := ⟨Binary.sub⟩
instance : Mul (Binary f) := ⟨Binary.mul⟩
instance : Div (Binary f) := ⟨Binary.div⟩

end Raster.Binary
