import Mathlib.Tactic.Positivity
import Raster.Proofs.Binary.Distance

/-!
# Relative errors

A rounding changes a number that is not tiny by a fixed share of it, and products and quotients of
what has such errors have little more than their sum.
-/

namespace Raster

/-- The second number differs from the first by at most this share of the first. -/
def HasError (share exact approximate : Rat) : Prop :=
  |approximate - exact| ≤ exact * share

namespace HasError

variable {s t a b e g : Rat}

theorem mono (close : HasError e s a) (nonneg : 0 ≤ s) (le : e ≤ g) : HasError g s a :=
  le_trans close (mul_le_mul_of_nonneg_left le nonneg)

theorem mul (closeA : HasError e s a) (closeB : HasError g t b) (nonnegS : 0 ≤ s) (nonnegT : 0 ≤ t)
    (nonnegE : 0 ≤ e) : HasError (e + g + e * g) (s * t) (a * b) := by
  have size : |b| ≤ t * (1 + g) := by
    obtain ⟨low, high⟩ := abs_le.mp closeB
    rw [abs_le]
    constructor <;> linarith
  calc |a * b - s * t| = |(a - s) * b + s * (b - t)| := by
        congr 1
        ring
    _ ≤ |a - s| * |b| + s * |b - t| := by
        rw [← abs_of_nonneg nonnegS, ← abs_mul, ← abs_mul, abs_of_nonneg nonnegS]
        exact abs_add_le _ _
    _ ≤ s * e * (t * (1 + g)) + s * (t * g) :=
        add_le_add (mul_le_mul closeA size (abs_nonneg b) (mul_nonneg nonnegS nonnegE))
          (mul_le_mul_of_nonneg_left closeB nonnegS)
    _ = s * t * (e + g + e * g) := by ring

theorem div (closeA : HasError e s a) (closeB : HasError g t b) (nonnegS : 0 ≤ s) (positiveT : 0 < t)
    (small : g < 1) : HasError ((e + g) / (1 - g)) (s / t) (a / b) := by
  -- The error of the divisor keeps it away from zero.
  have room : 0 < 1 - g := by linarith
  have least : t * (1 - g) ≤ b := by
    obtain ⟨low, -⟩ := abs_le.mp closeB
    linarith
  have positiveB : 0 < b := lt_of_lt_of_le (mul_pos positiveT room) least
  have numerator : |a * t - b * s| ≤ s * t * (e + g) :=
    calc |a * t - b * s| = |(a - s) * t + s * (t - b)| := by
          congr 1
          ring
      _ ≤ |a - s| * t + s * |b - t| := by
          rw [abs_sub_comm b t, ← abs_of_pos positiveT, ← abs_mul, abs_of_pos positiveT,
            ← abs_of_nonneg nonnegS, ← abs_mul, abs_of_nonneg nonnegS]
          exact abs_add_le _ _
      _ ≤ s * e * t + s * (t * g) :=
          add_le_add (mul_le_mul_of_nonneg_right closeA positiveT.le)
            (mul_le_mul_of_nonneg_left closeB nonnegS)
      _ = s * t * (e + g) := by ring
  have spread : 0 ≤ s * t * (e + g) := le_trans (abs_nonneg _) numerator
  calc |a / b - s / t| = |a * t - b * s| / (b * t) := by
        rw [div_sub_div _ _ positiveB.ne' positiveT.ne', abs_div,
          abs_of_pos (mul_pos positiveB positiveT)]
    _ ≤ s * t * (e + g) / (t * (1 - g) * t) :=
        div_le_div₀ spread numerator (mul_pos (mul_pos positiveT room) positiveT)
          (mul_le_mul_of_nonneg_right least positiveT.le)
    _ = s / t * ((e + g) / (1 - g)) := by
        field_simp

end HasError

namespace Binary

variable {f : BinaryFormat}

/-- A rounding of what is at least one has an error of half a step, and far less than a step more. -/
theorem IsRoundingOf.hasError {v : Rat} {y : Binary f} (rounded : IsRoundingOf v y)
    (finite : y.IsFinite) (large : 1 ≤ v) :
    HasError (1 / (2 * f.leadingBit) + 2 ^ f.lowestExponent / 2) v y.absolute := by
  have half := (rounded.roundsTo finite).abs_sub_le (by linarith)
  have unit : (0 : Rat) < 2 ^ f.lowestExponent := zpow_pos two_pos _
  have spare := mul_le_mul_of_nonneg_right large (by positivity : 0 ≤ (2 : Rat) ^ f.lowestExponent / 2)
  rw [absolute_eq_wordValue]
  calc |wordValue f y.magnitude - v| ≤ v / (2 * f.leadingBit) + 2 ^ f.lowestExponent / 2 := half
    _ ≤ v * (1 / (2 * f.leadingBit) + 2 ^ f.lowestExponent / 2) := by
      rw [mul_add, mul_one_div]
      linarith

end Binary

end Raster
