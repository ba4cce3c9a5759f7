import Raster.Decimal.Shortest

/-!
# Writing numbers

A style says how the shortest decimal of a number is laid out. `Style.render` is the only writer of
binary numbers, so every text of a number is determined by the number and a style.
-/

namespace Raster

/-- The decisions of a number format. -/
structure Style where
  /-- The exponents of the leading digit for which the point is written in its place, from the
  first up to the second. Without it, an exponent is never written. -/
  plainRange : Option (Int × Int)
  /-- An integer ends in `.0`. -/
  pointZero : Bool
  /-- A positive exponent has a plus sign. -/
  plusSign : Bool
  tie : Decimal.Tie
  notANumber : String
  infinity : String
  negativeInfinity : String

namespace Style

/-- All digits in their places, as in a message. -/
def plain : Style where
  plainRange := none
  pointZero := false
  plusSign := false
  tie := .up
  notANumber := "NaN"
  infinity := "inf"
  negativeInfinity := "-inf"

/-- A form that shows that the number is not an integer, as in a listing of a structure. -/
def listing : Style where
  plainRange := some (-4, 15)
  pointZero := true
  plusSign := false
  tie := .up
  notANumber := "NaN"
  infinity := "inf"
  negativeInfinity := "-inf"

/-- Whether a number whose leading digit has this exponent is written without an exponent. -/
def isPlainAt (s : Style) (leading : Int) : Bool :=
  match s.plainRange with
  | none => true
  | some (low, high) => decide (low ≤ leading ∧ leading ≤ high)

/-- The digits with the point after the first `whole` of them. Missing places are zeros. -/
def positional (s : Style) (digits : List Char) (whole : Int) : List Char :=
  if whole ≤ 0 then
    '0' :: '.' :: (List.replicate (-whole).toNat '0' ++ digits)
  else if digits.length ≤ whole.toNat then
    digits ++ List.replicate (whole.toNat - digits.length) '0' ++
      (if s.pointZero then ['.', '0'] else [])
  else
    digits.take whole.toNat ++ '.' :: digits.drop whole.toNat

/-- The digits with the point after the first of them, and the exponent. -/
def scientific (s : Style) (digits : List Char) (leading : Int) : List Char :=
  let point := if digits.length ≤ 1 then [] else ['.']
  let sign := if leading < 0 then ['-'] else if s.plusSign then ['+'] else []
  digits.take 1 ++ point ++ digits.drop 1 ++ 'e' :: sign ++ Nat.toDigits 10 leading.natAbs

def renderDecimal (s : Style) (d : Decimal) : List Char :=
  let digits := Nat.toDigits 10 d.digits
  let leading := d.exponent + digits.length - 1
  if s.isPlainAt leading then s.positional digits (leading + 1) else s.scientific digits leading

def render (s : Style) {f : BinaryFormat} (x : Binary f) : String :=
  if x.isNaN then s.notANumber
  else if x.isInfinite then if x.negative then s.negativeInfinity else s.infinity
  else
    let body :=
      if x.isZero then if s.pointZero then ['0', '.', '0'] else ['0']
      else s.renderDecimal (x.shortestDecimal s.tie)
    String.ofList (if x.negative then '-' :: body else body)

end Style

end Raster
