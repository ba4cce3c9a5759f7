import Raster.Binary.Rounding

/-!
# Shortest decimals

The shortest decimal of a binary number is the one with the fewest digits among those that read
back as the number. Of two with equally few digits it is the nearer one.

The reals that read back as a number form an interval around it that reaches half way to each
neighbour, its ends included when the significand is even. If a decimal with its last digit at some
place lies in the interval, so does one of the number's own two neighbours at that place. So the
search goes through the places from coarse to fine and looks at two candidates for each.
-/

namespace Raster

/-- The positive number `digits · 10^exponent`. -/
structure Decimal where
  digits : Nat
  exponent : Int
  deriving DecidableEq

namespace Decimal

/-- Which of two equally near candidates is taken. -/
inductive Tie where
  | toEven
  | up
  deriving DecidableEq

end Decimal

namespace Binary

variable {f : BinaryFormat}

/-- The magnitude of a finite number as a quotient. -/
def quotient (x : Binary f) : Nat × Nat :=
  (x.significand <<< x.exponent.toNat, 1 <<< (-x.exponent).toNat)

/-- The distance to the number below in quarters of the last place, halved. The smallest
significand of a normal number has a closer neighbour below than above. -/
def lowerReach (x : Binary f) : Nat :=
  if x.significand = f.leadingBit ∧ f.lowestExponent < x.exponent then 1 else 2

/-- Whether the decimal reads back as this positive finite number. -/
def readsAs (x : Binary f) (d : Decimal) : Bool :=
  let scale := (1 <<< x.exponent.toNat) * Nat.pow 10 (-d.exponent).toNat
  let point := 4 * d.digits * Nat.pow 10 d.exponent.toNat * (1 <<< (-x.exponent).toNat)
  let low := (4 * x.significand - x.lowerReach) * scale
  let high := (4 * x.significand + 2) * scale
  if x.significand % 2 = 0 then decide (low ≤ point ∧ point ≤ high)
  else decide (low < point ∧ point < high)

/-- The decimal with its last digit at the given place that reads back as the number, and the
nearer one if both neighbours do. -/
def decimalAt? (tie : Decimal.Tie) (x : Binary f) (place : Int) : Option Decimal :=
  let n := x.quotient.1 * Nat.pow 10 (-place).toNat
  let d := x.quotient.2 * Nat.pow 10 place.toNat
  let below := n / d
  let nearest :=
    match tie with
    | .toEven => roundHalfEven n d
    | .up => roundHalfUp n d
  -- The nearer neighbour comes first, then whichever of the two is left.
  let candidates := [nearest, below, below + 1].map (Decimal.mk · place)
  candidates.find? x.readsAs

/-- A place above the leading digit of the number. As `log10 2` is just below 0.30103, the power
of ten with this exponent exceeds the number. -/
def topPlace (x : Binary f) : Int :=
  (x.significand.log2 + x.exponent + 1) * 30103 / 100000 + 1

/-- The exact decimal of a finite number. -/
def exactDecimal (x : Binary f) : Decimal :=
  ⟨(x.significand <<< x.exponent.toNat) * Nat.pow 5 (-x.exponent).toNat, min x.exponent 0⟩

/-- The shortest decimal that reads back as this number without its sign. -/
def shortestDecimal (tie : Decimal.Tie) (x : Binary f) : Decimal :=
  let places := (List.range 20).map fun (i : Nat) => x.topPlace - i
  (places.findSome? (x.decimalAt? tie)).getD x.exactDecimal

end Binary

end Raster
