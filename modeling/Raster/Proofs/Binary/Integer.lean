import Raster.Binary.Conversion
import Raster.Proofs.Binary.Rounding

/-!
# Integers as binary numbers

An integer that fits into a significand is a number of the format itself. So it survives the way into
the format and back, and only the limits of the integer type can change it.
-/

namespace Raster

/-- A whole quotient is not changed by rounding. -/
theorem roundHalfUp_mul (k d : Nat) (positive : 0 < d) : roundHalfUp (k * d) d = k := by
  rw [roundHalfUp]
  apply Nat.div_eq_of_lt_le
  · linarith
  · linarith

namespace Binary

variable {f : BinaryFormat}

theorem absolute_eq_div (x : Binary f) :
    x.absolute = ((x.significand <<< x.exponent.toNat : Nat) : Rat) /
      ((1 <<< (-x.exponent).toNat : Nat) : Rat) := by
  have exponent : x.exponent = (x.exponent.toNat : Int) - ((-x.exponent).toNat : Int) := by omega
  rw [Nat.shiftLeft_eq, Nat.shiftLeft_eq, absolute]
  conv_lhs => rw [exponent, zpow_sub₀ two_ne_zero, zpow_natCast, zpow_natCast]
  push_cast
  ring

/-- The sign does not matter for the magnitude of a rounded quotient. -/
theorem magnitude_ofQuotient (negative : Bool) (n d : Nat) (e : Int) :
    (ofQuotient negative n d e : Binary f).magnitude =
      (ofQuotient false n d e : Binary f).magnitude := by
  unfold ofQuotient
  split <;> rfl

theorem absolute_congr {x y : Binary f} (same : x.magnitude = y.magnitude) :
    x.absolute = y.absolute := by
  rw [absolute_eq_units, absolute_eq_units, same]

theorem ofInt_eq_ofQuotient (f : BinaryFormat) (i : Int) :
    (ofInt i : Binary f) = ofQuotient (decide (i < 0)) i.natAbs 1 0 :=
  rfl

/-- Integers of at most as many bits as a significand are exact, with their signs. -/
theorem ofInt_exact (f : BinaryFormat) (i : Int) (small : i.natAbs ≤ 2 * f.leadingBit) :
    (ofInt i : Binary f).IsFinite ∧ (ofInt i : Binary f).absolute = i.natAbs ∧
      (ofInt i : Binary f).negative = decide (i < 0) := by
  have magnitude : (ofInt i : Binary f).magnitude = (ofNat i.natAbs : Binary f).magnitude := by
    rw [ofInt_eq_ofQuotient, ofNat_eq_ofQuotient, magnitude_ofQuotient]
  obtain ⟨finite, value⟩ := toRat_ofNat f i.natAbs small
  refine ⟨?_, ?_, negative_ofQuotient _⟩
  · rw [IsFinite, magnitude]
    exact finite
  · rw [absolute_congr magnitude, ← value, toRat_eq_absolute]
    rw [value]
    exact Nat.cast_nonneg _

/-- The nearest integer to an integer is the integer itself, limited to the range. -/
theorem nearestWithin_ofInt (f : BinaryFormat) (i low high : Int)
    (small : i.natAbs ≤ 2 * f.leadingBit) :
    (ofInt i : Binary f).nearestWithin low high = max low (min high i) := by
  obtain ⟨finite, value, sign⟩ := ofInt_exact f i small
  obtain ⟨number, bounded⟩ := (ofInt i : Binary f).number_of_finite finite
  generalize (ofInt i : Binary f) = x at *
  have divisor : 0 < 1 <<< (-x.exponent).toNat := by
    rw [Nat.shiftLeft_eq]
    positivity
  have whole : x.significand <<< x.exponent.toNat = i.natAbs * 1 <<< (-x.exponent).toNat := by
    rw [absolute_eq_div, div_eq_iff (Nat.cast_pos.mpr divisor).ne'] at value
    exact_mod_cast value
  unfold nearestWithin toIntWithin
  simp only [number, bounded, sign, whole, roundHalfUp_mul _ _ divisor, Bool.false_eq_true, if_false,
    decide_eq_true_eq]
  split <;> omega

end Binary

end Raster
