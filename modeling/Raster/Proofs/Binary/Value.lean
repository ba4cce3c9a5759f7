import Mathlib.Algebra.Order.Field.Power
import Mathlib.Algebra.Order.Floor.Semifield
import Mathlib.Data.Rat.Floor
import Mathlib.Order.Monotone.Basic
import Mathlib.Tactic.Linarith
import Mathlib.Tactic.Ring
import Raster.Binary.Conversion

/-!
# The values of binary numbers

A finite number is a rational: its signed significand times a power of two. The order of magnitude
words is the order of these rationals, because the next word always stands for a larger value, also
where the fraction carries into the exponent. So numbers are compared by their words, and the
comparison is that of their values.
-/

namespace Raster.Binary

variable {f : BinaryFormat}

def IsFinite (x : Binary f) : Prop :=
  x.magnitude < f.infinity

instance (x : Binary f) : Decidable x.IsFinite :=
  inferInstanceAs (Decidable (x.magnitude < f.infinity))

theorem number_of_finite (x : Binary f) (finite : x.IsFinite) :
    x.isNaN = false ∧ x.isInfinite = false := by
  unfold IsFinite at finite
  constructor
  · exact decide_eq_false (by omega)
  · exact beq_false_of_ne (by omega)

/-- The distance of a finite number from zero. -/
def absolute (x : Binary f) : Rat :=
  x.significand * (2 : Rat) ^ x.exponent

/-- The value of a finite number. -/
def toRat (x : Binary f) : Rat :=
  if x.negative then -x.absolute else x.absolute

/-! ### Magnitudes -/

/-- What a magnitude word stands for, counted in units of the smallest positive number. -/
def unitsOf (f : BinaryFormat) (magnitude : Nat) : Nat :=
  (if magnitude < f.leadingBit then magnitude else f.leadingBit + magnitude % f.leadingBit) *
    2 ^ (magnitude / f.leadingBit - 1)

theorem unitsOf_zero (f : BinaryFormat) : unitsOf f 0 = 0 := by
  simp [unitsOf, f.leadingBit_pos]

theorem unitsOf_of_lt (f : BinaryFormat) (magnitude : Nat) (subnormal : magnitude < f.leadingBit) :
    unitsOf f magnitude = magnitude := by
  simp [unitsOf, subnormal, Nat.div_eq_of_lt subnormal]

/-- A normal magnitude word is an exponent field and a fraction. -/
theorem unitsOf_normal (f : BinaryFormat) (field fraction : Nat) (inside : fraction < f.leadingBit) :
    unitsOf f ((field + 1) * f.leadingBit + fraction) = (f.leadingBit + fraction) * 2 ^ field := by
  have positive := f.leadingBit_pos
  have normal : ¬(field + 1) * f.leadingBit + fraction < f.leadingBit := by
    rw [Nat.succ_mul]
    omega
  have quotient : ((field + 1) * f.leadingBit + fraction) / f.leadingBit = field + 1 := by
    rw [Nat.add_comm, Nat.add_mul_div_right _ _ positive, Nat.div_eq_of_lt inside, Nat.zero_add]
  have rest : ((field + 1) * f.leadingBit + fraction) % f.leadingBit = fraction := by
    rw [Nat.add_comm, Nat.add_mul_mod_self_right, Nat.mod_eq_of_lt inside]
  rw [unitsOf, if_neg normal, quotient, rest, Nat.add_sub_cancel]

theorem exists_fields (f : BinaryFormat) (magnitude : Nat) (normal : f.leadingBit ≤ magnitude) :
    ∃ field fraction, fraction < f.leadingBit ∧
      magnitude = (field + 1) * f.leadingBit + fraction := by
  have positive := f.leadingBit_pos
  have atLeastOne : 0 < magnitude / f.leadingBit := Nat.div_pos normal positive
  refine ⟨magnitude / f.leadingBit - 1, magnitude % f.leadingBit, Nat.mod_lt _ positive, ?_⟩
  rw [Nat.sub_add_cancel atLeastOne, Nat.div_add_mod']

/-- The next magnitude word stands for more. -/
theorem unitsOf_lt_succ (f : BinaryFormat) (magnitude : Nat) :
    unitsOf f magnitude < unitsOf f (magnitude + 1) := by
  have positive := f.leadingBit_pos
  rcases Nat.lt_or_ge magnitude f.leadingBit with subnormal | normal
  · rw [unitsOf_of_lt f magnitude subnormal]
    rcases Nat.lt_or_ge (magnitude + 1) f.leadingBit with below | reached
    · rw [unitsOf_of_lt f _ below]
      exact Nat.lt_succ_self _
    · -- The largest subnormal number is followed by the smallest normal one.
      have carried : magnitude + 1 = f.leadingBit := by omega
      have first := unitsOf_normal f 0 0 positive
      simp only [Nat.zero_add, Nat.one_mul, Nat.add_zero, Nat.pow_zero, Nat.mul_one] at first
      rw [carried, first]
      exact subnormal
  · obtain ⟨field, fraction, inside, rfl⟩ := exists_fields f magnitude normal
    rw [unitsOf_normal f field fraction inside]
    rcases Nat.lt_or_ge (fraction + 1) f.leadingBit with below | reached
    · rw [Nat.add_assoc, unitsOf_normal f field (fraction + 1) below]
      exact Nat.mul_lt_mul_of_pos_right (by omega) (Nat.two_pow_pos field)
    · -- A fraction of ones is followed by an empty one at twice the place.
      have next : (field + 1) * f.leadingBit + fraction + 1 = (field + 1 + 1) * f.leadingBit + 0 := by
        rw [Nat.succ_mul (field + 1)]
        omega
      rw [next, unitsOf_normal f (field + 1) 0 positive, Nat.pow_succ, Nat.add_zero,
        Nat.mul_comm (2 ^ field), ← Nat.mul_assoc]
      exact Nat.mul_lt_mul_of_pos_right (by omega) (Nat.two_pow_pos field)

theorem unitsOf_strictMono (f : BinaryFormat) : StrictMono (unitsOf f) :=
  strictMono_nat_of_lt_succ (unitsOf_lt_succ f)

/-! ### Signed values -/

/-- The value of a number, counted in units of the smallest positive one. -/
def units (x : Binary f) : Int :=
  if x.negative then -(unitsOf f x.magnitude) else unitsOf f x.magnitude

theorem absolute_eq_units (x : Binary f) :
    x.absolute = unitsOf f x.magnitude * (2 : Rat) ^ f.lowestExponent := by
  have power : (2 : Rat) ^ x.exponent =
      2 ^ (x.magnitude / f.leadingBit - 1) * 2 ^ f.lowestExponent := by
    rw [exponent, zpow_add₀ two_ne_zero, zpow_natCast, mul_comm]
  have counted : (unitsOf f x.magnitude : Rat) =
      x.significand * 2 ^ (x.magnitude / f.leadingBit - 1) := by
    rw [← Nat.cast_two, ← Nat.cast_pow, ← Nat.cast_mul]
    rfl
  rw [absolute, power, counted, mul_assoc]

theorem toRat_eq_units (x : Binary f) : x.toRat = x.units * (2 : Rat) ^ f.lowestExponent := by
  unfold toRat units
  rw [absolute_eq_units]
  cases x.negative <;> simp

theorem absolute_le_iff (x y : Binary f) : x.absolute ≤ y.absolute ↔ x.magnitude ≤ y.magnitude := by
  rw [absolute_eq_units, absolute_eq_units, mul_le_mul_iff_left₀ (zpow_pos two_pos f.lowestExponent),
    Nat.cast_le, (unitsOf_strictMono f).le_iff_le]

theorem absolute_nonneg (x : Binary f) : 0 ≤ x.absolute :=
  mul_nonneg (Nat.cast_nonneg _) (zpow_nonneg zero_le_two _)

/-- The only number that has a sign and is not less than zero is zero. -/
theorem absolute_eq_zero (x : Binary f) (nonneg : 0 ≤ x.toRat) (negative : x.negative = true) :
    x.absolute = 0 := by
  have positive := x.absolute_nonneg
  rw [toRat, if_pos negative] at nonneg
  linarith

/-- A number that is not less than zero is as large as its distance from zero. Negative zero is one
too. -/
theorem toRat_eq_absolute (x : Binary f) (nonneg : 0 ≤ x.toRat) : x.toRat = x.absolute := by
  cases negative : x.negative with
  | false => simp [toRat, negative]
  | true => simp [toRat, negative, x.absolute_eq_zero nonneg negative]

theorem absolute_zero : (zero : Binary f).absolute = 0 := by
  rw [absolute_eq_units]
  simp [zero, ofMagnitude, unitsOf_zero]

theorem toRat_zero : (zero : Binary f).toRat = 0 :=
  absolute_zero

/-- Units are ordered like ranks: magnitudes are, and negative numbers are ordered the other way. -/
theorem units_le_iff (x y : Binary f) : x.units ≤ y.units ↔ x.rank ≤ y.rank := by
  have order := (unitsOf_strictMono f).le_iff_le (a := x.magnitude) (b := y.magnitude)
  have reverse := (unitsOf_strictMono f).le_iff_le (a := y.magnitude) (b := x.magnitude)
  have zeroX := (unitsOf_strictMono f).le_iff_le (a := x.magnitude) (b := 0)
  have zeroY := (unitsOf_strictMono f).le_iff_le (a := y.magnitude) (b := 0)
  rw [unitsOf_zero] at zeroX zeroY
  unfold units rank
  cases x.negative <;> cases y.negative <;> simp only [Bool.false_eq_true, if_false, if_true] <;> omega

theorem toRat_le_iff (x y : Binary f) : x.toRat ≤ y.toRat ↔ x.rank ≤ y.rank := by
  rw [toRat_eq_units, toRat_eq_units, mul_le_mul_iff_left₀ (zpow_pos two_pos f.lowestExponent),
    Int.cast_le, units_le_iff]

/-! ### Comparison -/

theorem atMost_iff (x y : Binary f) :
    x.atMost y = true ↔ x.isNaN = false ∧ y.isNaN = false ∧ x.rank ≤ y.rank := by
  unfold atMost compare?
  cases x.isNaN <;> cases y.isNaN <;> simp [Int.isLE_compare]

theorem isFinite_iff_rank (x : Binary f) :
    x.IsFinite ↔ -(f.infinity : Int) < x.rank ∧ x.rank < f.infinity := by
  unfold IsFinite rank
  split <;> omega

/-- Between finite numbers lie finite numbers only. What is not a number lies nowhere. -/
theorem between_iff (low high x : Binary f) (finiteLow : low.IsFinite) (finiteHigh : high.IsFinite) :
    (low.atMost x && x.atMost high) = true ↔
      x.IsFinite ∧ low.toRat ≤ x.toRat ∧ x.toRat ≤ high.toRat := by
  have number (y : Binary f) : y.isNaN = false ↔ y.magnitude ≤ f.infinity := by simp [isNaN]
  obtain ⟨lowest, -⟩ := (isFinite_iff_rank low).mp finiteLow
  obtain ⟨-, highest⟩ := (isFinite_iff_rank high).mp finiteHigh
  rw [Bool.and_eq_true, atMost_iff, atMost_iff, toRat_le_iff, toRat_le_iff, number, number, number]
  constructor
  · rintro ⟨⟨-, -, above⟩, -, -, below⟩
    exact ⟨(isFinite_iff_rank x).mpr ⟨by omega, by omega⟩, above, below⟩
  · rintro ⟨finite, above, below⟩
    exact ⟨⟨Nat.le_of_lt finiteLow, Nat.le_of_lt finite, above⟩, Nat.le_of_lt finite,
      Nat.le_of_lt finiteHigh, below⟩

/-! ### Integer parts -/

theorem floor_absolute (x : Binary f) :
    ⌊x.absolute⌋₊ = (x.significand <<< x.exponent.toNat) / (1 <<< (-x.exponent).toNat) := by
  have exponent : x.exponent = (x.exponent.toNat : Int) - ((-x.exponent).toNat : Int) := by omega
  have quotient : x.absolute =
      ((x.significand <<< x.exponent.toNat : Nat) : Rat) / ((1 <<< (-x.exponent).toNat : Nat) : Rat) := by
    rw [Nat.shiftLeft_eq, Nat.shiftLeft_eq, absolute]
    conv_lhs => rw [exponent, zpow_sub₀ two_ne_zero, zpow_natCast, zpow_natCast]
    push_cast
    ring
  rw [quotient, Nat.floor_div_eq_div]

/-- Truncation takes the integer part of a number that is not negative, and limits it. -/
theorem truncatedWithin_eq (x : Binary f) (finite : x.IsFinite) (nonneg : 0 ≤ x.toRat)
    (high : Nat) : x.truncatedWithin 0 high = (min high ⌊x.toRat⌋₊ : Nat) := by
  obtain ⟨number, bounded⟩ := x.number_of_finite finite
  have floor := x.floor_absolute
  rw [x.toRat_eq_absolute nonneg, floor]
  unfold truncatedWithin toIntWithin
  simp only [number, bounded, Bool.false_eq_true, if_false]
  generalize (x.significand <<< x.exponent.toNat) / (1 <<< (-x.exponent).toNat) = size at floor ⊢
  cases signed : x.negative with
  | false =>
    simp only [Bool.false_eq_true, if_false]
    omega
  | true =>
    obtain rfl : size = 0 := by rw [← floor, x.absolute_eq_zero nonneg signed, Nat.floor_zero]
    simp

end Raster.Binary
