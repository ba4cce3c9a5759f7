import Raster.Fault

/-!
# Coordinate arithmetic

Coordinates and extents are 32-bit naturals. A result that such a number cannot hold is a fault.
-/

namespace Raster.Coordinate

protected def add (a b : UInt32) : Except Fault UInt32 :=
  if a.toNat + b.toNat < UInt32.size then .ok (a + b) else .error .additionOverflow

protected def sub (a b : UInt32) : Except Fault UInt32 :=
  if b ≤ a then .ok (a - b) else .error .subtractionOverflow

protected def mul (a b : UInt32) : Except Fault UInt32 :=
  if a.toNat * b.toNat < UInt32.size then .ok (a * b) else .error .multiplicationOverflow

protected def div (a b : UInt32) : Except Fault UInt32 :=
  if b = 0 then .error .divisionByZero else .ok (a / b)

end Raster.Coordinate
