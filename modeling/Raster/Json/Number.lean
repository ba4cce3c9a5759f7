import Raster.Binary.Arithmetic
import Raster.Json.Syntax

/-!
# Reading numbers

The integers and the binary numbers that a numeral stands for. A binary number is read in a way that
is quick rather than exact: the digits that fit are gathered in a 64-bit significand, which is
rounded, and the power of ten is applied by rounded operations. So a numeral with many digits or a
large exponent may be read as a neighbour of the nearest number.
-/

namespace Raster.Numeral

def valueOf (digits : List Nat) : Nat :=
  digits.foldl (fun n d => n * 10 + d) 0

/-- The coordinate that is written as a plain natural number. -/
def toUInt32? (n : Numeral) : Option UInt32 :=
  match n with
  | ⟨false, whole, none, none⟩ =>
    if valueOf whole < UInt32.size then some (UInt32.ofNat (valueOf whole)) else none
  | _ => none

/-- Appends digits to a significand as long as the result fits in 64 bits, and gives the digits that
are left. -/
def gather (significand : Nat) : List Nat → Nat × List Nat
  | [] => (significand, [])
  | d :: rest =>
    if significand * 10 + d < UInt64.size then gather (significand * 10 + d) rest
    else (significand, d :: rest)

/-- The greatest power of ten that is a finite number. -/
def greatestPower : Nat :=
  308

def powerOfTen (exponent : Nat) : Double :=
  Binary.ofDecimal false 1 exponent

/-- The number times a power of ten, or nothing if it is beyond the finite numbers. -/
def scale (x : Double) (exponent : Int) : Option Double :=
  if exponent.natAbs ≤ greatestPower then
    if 0 ≤ exponent then
      let product := x * powerOfTen exponent.natAbs
      if product.isInfinite then none else some product
    else some (x / powerOfTen exponent.natAbs)
  else if x.isZero then some x
  else if 0 ≤ exponent then none
  else scale (x / powerOfTen greatestPower) (exponent + greatestPower)
  termination_by exponent.natAbs
  decreasing_by simp only [greatestPower] at *; omega

def addExponents (a b : Int) : Int :=
  max Int32.minValue.toInt (min Int32.maxValue.toInt (a + b))

/-- The number without its sign. An exponent beyond 32 bits makes it zero or too great. -/
def magnitude? (n : Numeral) : Option Double :=
  let (significand, beyond) := gather 0 n.whole
  let fraction := n.fraction.getD []
  let (significand, dropped) := gather significand fraction
  let point : Int := beyond.length - (fraction.length - dropped.length : Nat)
  match n.exponent with
  | none => scale (Binary.ofNat significand) point
  | some (negative, digits) =>
    let exponent : Int := valueOf digits
    if Int32.maxValue.toInt < exponent then
      if significand ≠ 0 ∧ !negative then none else some Binary.zero
    else
      scale (Binary.ofNat significand)
        (addExponents point (if negative then -exponent else exponent))

/-- The binary number as which a numeral is read. -/
def toDouble? (n : Numeral) : Option Double :=
  n.magnitude?.map fun x => if n.negative then -x else x

end Raster.Numeral
