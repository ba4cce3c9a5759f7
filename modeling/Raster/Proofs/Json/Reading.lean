import Raster.Proofs.Binary.Error
import Raster.Proofs.Json.Number

/-!
# How far reading is from the number that was written

Reading rounds the digits and the power of ten before it applies one to the other. If both are
exact, then the only rounding is that of the result, so the number that was written comes back. In
any case the result is one of its close neighbours.
-/

namespace Raster.Numeral

open Binary

/-! ### Digits and powers of ten as doubles -/

/-- A small part of a rounding error, in which all errors here are counted. -/
def errorUnit : Rat :=
  1 / (400 * BinaryFormat.double.leadingBit)

theorem errorUnit_pos : 0 < errorUnit :=
  div_pos one_pos (mul_pos (by norm_num) (Nat.cast_pos.mpr BinaryFormat.double.leadingBit_pos))

theorem errorUnit_small : 1000000 * errorUnit ≤ 1 := by
  norm_num [errorUnit, BinaryFormat.leadingBit]

theorem roundingError_le :
    1 / (2 * (BinaryFormat.double.leadingBit : Rat)) +
      2 ^ BinaryFormat.double.lowestExponent / 2 ≤ 202 * errorUnit := by
  have tiny : (2 : Rat) ^ BinaryFormat.double.lowestExponent ≤ (2 ^ 64)⁻¹ := by
    rw [zpow_lowestExponent_double]
    exact inv_anti₀ (by positivity) (pow_le_pow_right₀ one_le_two (by decide))
  have spare : (2 ^ 64 : Rat)⁻¹ ≤ 4 * errorUnit := by
    norm_num [errorUnit, BinaryFormat.leadingBit]
  have share : 1 / (2 * (BinaryFormat.double.leadingBit : Rat)) = 200 * errorUnit := by
    norm_num [errorUnit, BinaryFormat.leadingBit]
  linarith

/-- The greatest power of ten that is used is below the greatest number. -/
theorem isFinite_of_le {v : Rat} {y : Double} (rounded : IsRoundingOf v y)
    (below : v ≤ 10 ^ greatestPower) : y.IsFinite := by
  have top : 10 ^ greatestPower * 2 ^ 1074 ≤ unitsOf .double (BinaryFormat.double.infinity - 1) := by
    decide +kernel
  have topRat : (10 ^ greatestPower * 2 ^ 1074 : Rat) ≤
      unitsOf .double (BinaryFormat.double.infinity - 1) := by exact_mod_cast top
  have bound : v ≤ wordValue .double (BinaryFormat.double.infinity - 1) := by
    rw [wordValue, zpow_lowestExponent_double, ← div_eq_mul_inv, le_div_iff₀ (by positivity)]
    exact le_trans (mul_le_mul_of_nonneg_right below (by positivity)) topRat
  have atMost := rounded.le_of_le bound
  unfold IsFinite
  have positive : 0 < BinaryFormat.double.infinity := by decide
  omega

/-- A double that stands for a real of at least one, with a rounding error. -/
structure Approximates (exact : Rat) (x : Double) : Prop where
  finite : x.IsFinite
  nonzero : x.magnitude ≠ 0
  unsigned : x.negative = false
  error : HasError (202 * errorUnit) exact x.absolute

theorem Approximates.of_rounding {v : Rat} {y : Double} (rounded : IsRoundingOf v y)
    (unsigned : y.negative = false) (large : 1 ≤ v) (below : v ≤ 10 ^ greatestPower) :
    Approximates v y := by
  have finite := isFinite_of_le rounded below
  refine ⟨finite, ?_, unsigned, (rounded.hasError finite large).mono (by linarith) roundingError_le⟩
  have one : wordValue .double 1 ≤ v := by
    apply le_trans _ large
    have unit : unitsOf .double 1 = 1 := by decide
    rw [wordValue, unit, Nat.cast_one, one_mul, zpow_lowestExponent_double]
    exact inv_le_one_of_one_le₀ (one_le_pow₀ one_le_two)
  have atLeast := rounded.ge_of_ge (by decide) one
  omega

theorem approximates_ofNat (n : Nat) (positive : 0 < n) (fits : n < UInt64.size) :
    Approximates n (Binary.ofNat n : Double) := by
  have bound : n ≤ 10 ^ greatestPower := Nat.le_trans (Nat.le_of_lt fits) (by decide +kernel)
  exact .of_rounding (isRoundingOf_ofNat .double n) (unsigned_ofNat .double n)
    (Nat.one_le_cast.mpr positive) (by exact_mod_cast bound)

theorem approximates_powerOfTen (k : Nat) (bounded : k ≤ greatestPower) :
    Approximates (10 ^ k) (powerOfTen k) := by
  have rounded := isRoundingOf_ofDecimal (f := .double) false 1 (k : Int)
  rw [Nat.cast_one, one_mul, zpow_natCast] at rounded
  refine .of_rounding rounded (negative_ofQuotient _) (one_le_pow₀ (by norm_num)) ?_
  exact pow_le_pow_right₀ (by norm_num) bounded

/-- The greatest power of ten happens to be close to a double. -/
theorem hasError_greatestPower :
    HasError (20 * errorUnit) (10 ^ greatestPower) (powerOfTen greatestPower).absolute := by
  have high : unitsOf .double (powerOfTen greatestPower).magnitude *
      (400 * BinaryFormat.double.leadingBit) ≤
        10 ^ greatestPower * (400 * BinaryFormat.double.leadingBit + 20) * 2 ^ 1074 := by decide +kernel
  have low : 10 ^ greatestPower * (400 * BinaryFormat.double.leadingBit) * 2 ^ 1074 ≤
      unitsOf .double (powerOfTen greatestPower).magnitude *
        (400 * BinaryFormat.double.leadingBit) + 10 ^ greatestPower * 20 * 2 ^ 1074 := by decide +kernel
  have highRat : (unitsOf .double (powerOfTen greatestPower).magnitude *
      (400 * BinaryFormat.double.leadingBit) : Rat) ≤
        10 ^ greatestPower * (400 * BinaryFormat.double.leadingBit + 20) * 2 ^ 1074 := by
    exact_mod_cast high
  have lowRat : (10 ^ greatestPower * (400 * BinaryFormat.double.leadingBit) * 2 ^ 1074 : Rat) ≤
      unitsOf .double (powerOfTen greatestPower).magnitude *
        (400 * BinaryFormat.double.leadingBit) + 10 ^ greatestPower * 20 * 2 ^ 1074 := by
    exact_mod_cast low
  have parts : (0 : Rat) < 400 * BinaryFormat.double.leadingBit :=
    mul_pos (by norm_num) (Nat.cast_pos.mpr BinaryFormat.double.leadingBit_pos)
  have positive : (0 : Rat) < 2 ^ 1074 := pow_pos two_pos _
  rw [HasError, absolute_eq_units, zpow_lowestExponent_double, errorUnit, ← div_eq_mul_inv]
  generalize (unitsOf .double (powerOfTen greatestPower).magnitude : Rat) = units at *
  generalize (400 * BinaryFormat.double.leadingBit : Rat) = part at *
  generalize (2 ^ 1074 : Rat) = scale at *
  generalize (10 ^ greatestPower : Rat) = power at *
  have upper : units / scale ≤ power * (part + 20) / part :=
    (div_le_div_iff₀ positive parts).mpr highRat
  have lower : power * (part - 20) / part ≤ units / scale := by
    rw [div_le_div_iff₀ parts positive]
    linarith
  have above : power * (part + 20) / part = power + power * (20 * (1 / part)) := by field_simp
  have below : power * (part - 20) / part = power - power * (20 * (1 / part)) := by field_simp
  rw [abs_le]
  constructor <;> linarith

/-- Powers of ten with few enough digits are exact. -/
theorem absolute_powerOfTen (k : Nat) (small : k ≤ 22) : (powerOfTen k).absolute = 10 ^ k := by
  have exact : ∀ k ≤ 22, unitsOf .double (powerOfTen k).magnitude = 10 ^ k * 2 ^ 1074 := by
    decide +kernel
  rw [absolute_eq_units, exact k small, zpow_lowestExponent_double, Nat.cast_mul, Nat.cast_pow,
    Nat.cast_pow, Nat.cast_ofNat, Nat.cast_ofNat, mul_inv_cancel_right₀ (by positivity)]

/-! ### Applying the power of ten -/

/-- The result of reading: the rounding of something close to what is to be read. -/
structure IsReadingOf (v : Rat) (y : Double) : Prop where
  unsigned : y.negative = false
  rounds : ∃ w, IsRoundingOf w y ∧ IsClose .double v w

theorem isClose_iff (v w : Rat) : IsClose .double v w ↔
    |w - v| ≤ v * (440 * errorUnit) + 2 ^ BinaryFormat.double.lowestExponent / 20 := by
  have share : 11 * v / (10 * BinaryFormat.double.leadingBit) = v * (440 * errorUnit) := by
    unfold errorUnit
    field_simp
    ring
  rw [IsClose, share]

theorem isClose_of_hasError {v w : Rat} (close : HasError (440 * errorUnit) v w) :
    IsClose .double v w := by
  have unit : (0 : Rat) < 2 ^ BinaryFormat.double.lowestExponent := zpow_pos two_pos _
  exact (isClose_iff v w).mpr (le_add_of_le_of_nonneg close (by positivity))

section Scale

variable {s t : Rat} {x y : Double}

/-- A product of two approximations is a reading of the product. -/
theorem isReadingOf_mul (first : Approximates s x) (second : Approximates t y) (nonnegS : 0 ≤ s)
    (nonnegT : 0 ≤ t) : IsReadingOf (s * t) (x * y) where
  unsigned := unsigned_mul first.finite second.finite first.unsigned second.unsigned
  rounds := by
    refine ⟨_, isRoundingOf_mul x y first.finite second.finite, isClose_of_hasError ?_⟩
    have positive := errorUnit_pos
    have small := errorUnit_small
    apply (first.error.mul second.error nonnegS nonnegT (by linarith)).mono (mul_nonneg nonnegS nonnegT)
    nlinarith

/-- A quotient of two approximations is a reading of the quotient. -/
theorem isReadingOf_div (first : Approximates s x) (second : Approximates t y) (nonnegS : 0 ≤ s)
    (positiveT : 0 < t) : IsReadingOf (s / t) (x / y) where
  unsigned := unsigned_div first.finite second.finite second.nonzero first.unsigned second.unsigned
  rounds := by
    refine ⟨_, isRoundingOf_div x y first.finite second.finite second.nonzero,
      isClose_of_hasError ?_⟩
    have positive := errorUnit_pos
    have small := errorUnit_small
    apply (first.error.div second.error nonnegS positiveT (by linarith)).mono
      (div_nonneg nonnegS positiveT.le)
    rw [div_le_iff₀ (by linarith)]
    nlinarith

/-- The quotient by the greatest power of ten, before it is rounded. -/
theorem Approximates.hasError_div_greatestPower (first : Approximates s x) (nonnegS : 0 ≤ s) :
    HasError (223 * errorUnit) (s / 10 ^ greatestPower)
      (x.absolute / (powerOfTen greatestPower).absolute) := by
  have unitPos := errorUnit_pos
  have unitSmall := errorUnit_small
  apply (first.error.div hasError_greatestPower nonnegS (by positivity) (by linarith)).mono
    (div_nonneg nonnegS (by positivity))
  rw [div_le_iff₀ (by linarith)]
  nlinarith

/-- The quotient by the greatest power of ten may be tiny, and then its rounding changes it by half a
unit. -/
theorem Approximates.div_greatestPower (first : Approximates s x) (nonnegS : 0 ≤ s)
    (bounded : s ≤ 10 ^ greatestPower) : (x / powerOfTen greatestPower).IsFinite ∧
      |(x / powerOfTen greatestPower).absolute - s / 10 ^ greatestPower| ≤
        s / 10 ^ greatestPower * (440 * errorUnit) +
          2 ^ BinaryFormat.double.lowestExponent / 2 := by
  have unitPos := errorUnit_pos
  have unitSmall := errorUnit_small
  have great := approximates_powerOfTen greatestPower (Nat.le_refl _)
  have rounded := isRoundingOf_div x _ first.finite great.finite great.nonzero
  have error := first.hasError_div_greatestPower nonnegS
  have nonneg : 0 ≤ s / 10 ^ greatestPower := div_nonneg nonnegS (by positivity)
  have small : s / 10 ^ greatestPower ≤ 1 := (div_le_one (by positivity)).mpr bounded
  have quotientNonneg : 0 ≤ x.absolute / (powerOfTen greatestPower).absolute :=
    div_nonneg x.absolute_nonneg (absolute_nonneg _)
  generalize x / powerOfTen greatestPower = c at *
  generalize x.absolute / (powerOfTen greatestPower).absolute = q at *
  generalize s / 10 ^ greatestPower = v at *
  obtain ⟨errorLow, errorHigh⟩ := abs_le.mp error
  have finite : c.IsFinite := by
    apply isFinite_of_le rounded
    have room : v * (223 * errorUnit) ≤ 1 := by nlinarith
    have ten : (10 : Rat) ≤ 10 ^ greatestPower := le_self_pow₀ (by norm_num) (by decide)
    linarith
  refine ⟨finite, ?_⟩
  have half := (rounded.roundsTo finite).abs_sub_le quotientNonneg
  have share : q / (2 * (BinaryFormat.double.leadingBit : Rat)) = q * (200 * errorUnit) := by
    unfold errorUnit
    field_simp
    ring
  rw [← absolute_eq_wordValue, share] at half
  obtain ⟨halfLow, halfHigh⟩ := abs_le.mp half
  have growth : q * (200 * errorUnit) ≤ v * (217 * errorUnit) := by nlinarith
  rw [abs_le]
  constructor <;> linarith

/-- A power of ten makes half a unit small. -/
theorem isClose_div_pow {v c : Rat} {k : Nat} (atLeastOne : 0 < k)
    (near : |c - v| ≤ v * (440 * errorUnit) + 2 ^ BinaryFormat.double.lowestExponent / 2) :
    IsClose .double (v / 10 ^ k) (c / 10 ^ k) := by
  have scale : (0 : Rat) < 10 ^ k := pow_pos (by norm_num) k
  have ten : (10 : Rat) ≤ 10 ^ k := le_self_pow₀ (by norm_num) (Nat.ne_of_gt atLeastOne)
  have unit : (0 : Rat) < 2 ^ BinaryFormat.double.lowestExponent := zpow_pos two_pos _
  have tiny : (2 : Rat) ^ BinaryFormat.double.lowestExponent / 2 / 10 ^ k ≤
      2 ^ BinaryFormat.double.lowestExponent / 20 := by
    rw [div_div, div_le_div_iff₀ (by positivity) (by norm_num)]
    nlinarith
  rw [isClose_iff]
  calc |c / 10 ^ k - v / 10 ^ k| = |c - v| / 10 ^ k := by
        rw [← sub_div, abs_div, abs_of_pos scale]
    _ ≤ (v * (440 * errorUnit) + 2 ^ BinaryFormat.double.lowestExponent / 2) / 10 ^ k :=
        div_le_div_of_nonneg_right near scale.le
    _ = v / 10 ^ k * (440 * errorUnit) +
          2 ^ BinaryFormat.double.lowestExponent / 2 / 10 ^ k := by
        rw [add_div, div_mul_eq_mul_div]
    _ ≤ v / 10 ^ k * (440 * errorUnit) + 2 ^ BinaryFormat.double.lowestExponent / 20 :=
        add_le_add_right tiny _

/-- A quotient by the greatest power of ten and then by a smaller one, which is exact. -/
theorem isReadingOf_div_div (first : Approximates s x) (nonnegS : 0 ≤ s)
    (bounded : s ≤ 10 ^ greatestPower) (k : Nat) (atLeastOne : 0 < k) (small : k ≤ 22) :
    IsReadingOf (s / 10 ^ greatestPower / 10 ^ k) (x / powerOfTen greatestPower / powerOfTen k) := by
  have great := approximates_powerOfTen greatestPower (Nat.le_refl _)
  have power := approximates_powerOfTen k (Nat.le_trans small (by decide))
  obtain ⟨finite, near⟩ := first.div_greatestPower nonnegS bounded
  have unsigned := unsigned_div first.finite great.finite great.nonzero first.unsigned great.unsigned
  have rounded := isRoundingOf_div _ _ finite power.finite power.nonzero
  rw [absolute_powerOfTen k small] at rounded
  exact ⟨unsigned_div finite power.finite power.nonzero unsigned power.unsigned, _, rounded,
    isClose_div_pow atLeastOne near⟩

end Scale

/-- The number times a power of ten: by one product, by one quotient, or by two for the least
powers. -/
def applyPower (x : Double) (e : Int) : Double :=
  if 0 ≤ e then x * powerOfTen e.natAbs
  else if e.natAbs ≤ greatestPower then x / powerOfTen e.natAbs
  else x / powerOfTen greatestPower / powerOfTen (e.natAbs - greatestPower)

theorem applyPower_natCast (x : Double) (k : Nat) : applyPower x k = x * powerOfTen k :=
  if_pos (Int.natCast_nonneg k)

theorem applyPower_neg (x : Double) (k : Nat) (positive : 0 < k) (bounded : k ≤ greatestPower) :
    applyPower x (-k) = x / powerOfTen k := by
  rw [applyPower, if_neg (by omega), Int.natAbs_neg, Int.natAbs_natCast, if_pos bounded]

theorem applyPower_deep (x : Double) (k : Nat) (positive : 0 < k) :
    applyPower x (-(k + greatestPower : Nat)) =
      x / powerOfTen greatestPower / powerOfTen k := by
  rw [applyPower, if_neg (by omega), Int.natAbs_neg, Int.natAbs_natCast, if_neg (by omega),
    Nat.add_sub_cancel]

/-- An exponent of moderate size is a power, one below zero, or one far below zero. -/
theorem power_cases (e : Int) (high : e ≤ greatestPower) :
    (∃ k : Nat, e = k ∧ k ≤ greatestPower) ∨
      (∃ k : Nat, e = -k ∧ 0 < k ∧ k ≤ greatestPower) ∨
        ∃ k : Nat, e = -(k + greatestPower : Nat) ∧ 0 < k := by
  rcases lt_or_ge e 0 with negative | above
  · rcases Nat.lt_or_ge greatestPower e.natAbs with deep | within
    · exact .inr (.inr ⟨e.natAbs - greatestPower, by omega, by omega⟩)
    · exact .inr (.inl ⟨e.natAbs, by omega, by omega, within⟩)
  · exact .inl ⟨e.natAbs, by omega, by omega⟩

/-- The reader applies the power, unless the result is beyond the finite numbers. -/
theorem scale_eq_applyPower (x : Double) (e : Int) (nonzero : e < -greatestPower → x.magnitude ≠ 0)
    (low : -(2 * greatestPower : Int) ≤ e) (high : e ≤ greatestPower)
    (finite : (applyPower x e).IsFinite) : scale x e = some (applyPower x e) := by
  rcases power_cases e high with ⟨k, rfl, within⟩ | ⟨k, rfl, positive, within⟩ | ⟨k, rfl, positive⟩
  · rw [applyPower_natCast] at finite ⊢
    have bounds := (x * powerOfTen k).number_of_finite finite
    rw [scale, Int.natAbs_natCast, if_pos within, if_pos (Int.natCast_nonneg k)]
    simp [bounds.2]
  · rw [applyPower_neg x k positive within, scale, Int.natAbs_neg, Int.natAbs_natCast,
      if_pos within, if_neg (by omega)]
  · have notZero : ¬x.isZero = true := fun isZero => nonzero (by omega) (beq_iff_eq.mp isZero)
    have rest : -((k + greatestPower : Nat) : Int) + greatestPower = -k := by
      push_cast
      ring
    rw [applyPower_deep x k positive, scale, Int.natAbs_neg, Int.natAbs_natCast, if_neg (by omega),
      if_neg notZero, if_neg (by omega), rest, scale, Int.natAbs_neg, Int.natAbs_natCast,
      if_pos (by omega), if_neg (by omega)]

/-- What reading an integer times a power of ten of moderate size gives. -/
theorem isReadingOf_applyPower (n : Nat) (e : Int) (positive : 0 < n) (fits : n < UInt64.size)
    (low : -330 ≤ e) (high : e ≤ greatestPower) :
    IsReadingOf (n * 10 ^ e) (applyPower (Binary.ofNat n) e) := by
  have digits := approximates_ofNat n positive fits
  have nonneg : (0 : Rat) ≤ n := Nat.cast_nonneg n
  have great : greatestPower = 308 := rfl
  rcases power_cases e high with ⟨k, rfl, within⟩ | ⟨k, rfl, above, within⟩ | ⟨k, rfl, above⟩
  · rw [applyPower_natCast, zpow_natCast]
    exact isReadingOf_mul digits (approximates_powerOfTen k within) nonneg (by positivity)
  · rw [applyPower_neg _ k above within, zpow_neg, zpow_natCast, ← div_eq_mul_inv]
    exact isReadingOf_div digits (approximates_powerOfTen k within) nonneg (by positivity)
  · have size : n ≤ 10 ^ greatestPower := Nat.le_trans (Nat.le_of_lt fits) (by decide +kernel)
    have sizeRat : (n : Rat) ≤ 10 ^ greatestPower := by exact_mod_cast size
    rw [applyPower_deep _ k above, zpow_neg, zpow_natCast, Nat.add_comm, pow_add, ← div_eq_mul_inv,
      ← div_div]
    exact isReadingOf_div_div digits nonneg sizeRat k above (by omega)

/-- Few digits and a small power are exact, so there is only the rounding of the result. -/
theorem isRoundingOf_applyPower (n : Nat) (e : Int) (few : n ≤ 2 * BinaryFormat.double.leadingBit)
    (small : e.natAbs ≤ 22) :
    IsRoundingOf (n * 10 ^ e) (applyPower (Binary.ofNat n) e) ∧
      (applyPower (Binary.ofNat n) e).negative = false := by
  obtain ⟨finite, value⟩ := toRat_ofNat .double n few
  have unsigned := unsigned_ofNat .double n
  have exact : (Binary.ofNat n : Double).absolute = n := by
    rwa [toRat, if_neg (by simp [unsigned])] at value
  have great : greatestPower = 308 := rfl
  rcases power_cases e (by omega) with ⟨k, rfl, within⟩ | ⟨k, rfl, above, within⟩ | ⟨k, rfl, above⟩
  · have power := approximates_powerOfTen k within
    rw [applyPower_natCast, zpow_natCast, ← absolute_powerOfTen k (by omega), ← exact]
    exact ⟨isRoundingOf_mul _ _ finite power.finite,
      unsigned_mul finite power.finite unsigned power.unsigned⟩
  · have power := approximates_powerOfTen k within
    rw [applyPower_neg _ k above within, zpow_neg, zpow_natCast, ← absolute_powerOfTen k (by omega),
      ← div_eq_mul_inv, ← exact]
    exact ⟨isRoundingOf_div _ _ finite power.finite power.nonzero,
      unsigned_div finite power.finite power.nonzero unsigned power.unsigned⟩
  · omega

/-! ### Reading what was written -/

/-- The three greatest numbers are read as finite ones too. -/
theorem largest_finite (negative : Bool) (k : Nat) (near : k < 3) :
    let x : Double := ofMagnitude negative (BinaryFormat.double.infinity - 1 - k)
    0 < (Json.writtenDecimal x).digits ∧ 100 ≤ (Json.writtenDecimal x).exponent ∧
      (applyPower (Binary.ofNat (Json.writtenDecimal x).digits)
        (Json.writtenDecimal x).exponent).IsFinite := by
  revert negative k
  decide +kernel

/-- The parts of a numeral that shows the decimal of a number, as far as reading depends on them. -/
theorem Shows.power_bounds {x : Double} (finite : x.IsFinite) {n : Numeral}
    (shown : n.Shows (Json.writtenDecimal x)) : -324 ≤ n.power ∧ n.power ≤ 308 := by
  rcases shown.parts with ⟨-, power⟩ | ⟨-, -, power⟩
  · rw [power]
    by_cases zero : x.magnitude = 0
    · rw [Json.writtenDecimal_zero x zero]
      decide
    · rw [Json.writtenDecimal_of_ne_zero x zero]
      exact exponent_shortestDecimal _ x zero finite
  · omega

theorem Shows.magnitude_eq_zero {x : Double} {n : Numeral}
    (shown : n.Shows (Json.writtenDecimal x)) (noDigits : n.significand = 0) : x.magnitude = 0 := by
  by_contra nonzero
  have rounds := Json.roundsTo_writtenDecimal x
  have positive := rounds.pos nonzero
  rw [← shown.toRat_eq, noDigits, Nat.cast_zero, zero_mul] at positive
  exact absurd positive (lt_irrefl _)

/-- For the three greatest numbers reading does not go beyond the finite numbers either. -/
theorem Shows.finite_of_largest {x : Double} (finite : x.IsFinite) {n : Numeral}
    (shown : n.Shows (Json.writtenDecimal x))
    (largest : BinaryFormat.double.infinity ≤ x.magnitude + 3) :
    (applyPower (Binary.ofNat n.significand) n.power).IsFinite := by
  unfold IsFinite at finite
  have same : x = ofMagnitude x.negative
      (BinaryFormat.double.infinity - 1 - (BinaryFormat.double.infinity - 1 - x.magnitude)) := by
    apply bits_injective
    simp only [bits, ofMagnitude]
    congr 1
    omega
  have evaluated := largest_finite x.negative (BinaryFormat.double.infinity - 1 - x.magnitude)
    (by omega)
  simp only [← same] at evaluated
  obtain ⟨positive, large, bounded⟩ := evaluated
  rcases shown.parts with ⟨digits, power⟩ | ⟨-, digits, -⟩
  · rw [digits, power]
    exact bounded
  · -- So many zeros would not fit.
    have fits := shown.modest.fits
    have zeros : 10 ^ 100 ≤ n.significand := by
      rw [digits]
      exact Nat.le_trans (Nat.pow_le_pow_right (by decide) (by omega))
        (Nat.le_mul_of_pos_left _ positive)
    have limit : UInt64.size < 10 ^ 100 := by decide
    omega

/-- What reading the numeral of a written number gives. -/
structure ReadsBack (x : Double) (n : Numeral) (y : Double) : Prop where
  finite : y.IsFinite
  unsigned : y.negative = false
  atMost : y.magnitude ≤ x.magnitude + 3
  atLeast : x.magnitude ≤ y.magnitude + 3
  /-- If digits and power are exact, the number itself comes back. -/
  exact : n.significand ≤ 2 * BinaryFormat.double.leadingBit → n.power.natAbs ≤ 22 →
    y.magnitude = x.magnitude

/-- A number that was written is read as itself or as one of its three neighbours on either side. -/
theorem Shows.readsBack {x : Double} (finite : x.IsFinite) {n : Numeral}
    (shown : n.Shows (Json.writtenDecimal x)) :
    ReadsBack x n (applyPower (Binary.ofNat n.significand) n.power) := by
  have rounds := Json.roundsTo_writtenDecimal x
  have exact (few : n.significand ≤ 2 * BinaryFormat.double.leadingBit)
      (small : n.power.natAbs ≤ 22) :
      (applyPower (Binary.ofNat n.significand) n.power).magnitude = x.magnitude ∧
        (applyPower (Binary.ofNat n.significand) n.power).negative = false := by
    obtain ⟨rounded, unsigned⟩ := isRoundingOf_applyPower n.significand n.power few small
    rw [shown.toRat_eq] at rounded
    exact ⟨rounded.magnitude_eq finite rounds, unsigned⟩
  -- Relative errors say nothing about zero, but zero is exact.
  rcases Nat.eq_zero_or_pos n.significand with noDigits | positive
  · have power : n.power.natAbs ≤ 22 := by
      rcases shown.parts with ⟨-, power⟩ | ⟨-, -, power⟩
      · rw [power, Json.writtenDecimal_zero x (shown.magnitude_eq_zero noDigits)]
        decide
      · omega
    obtain ⟨same, unsigned⟩ := exact (by omega) power
    exact ⟨by rw [IsFinite, same]; exact finite, unsigned, by omega, by omega, fun _ _ => same⟩
  · obtain ⟨low, high⟩ := shown.power_bounds finite
    have reading := isReadingOf_applyPower n.significand n.power positive shown.modest.fits
      (by omega) high
    rw [shown.toRat_eq] at reading
    obtain ⟨unsigned, w, rounded, close⟩ := reading
    obtain ⟨atMost, atLeast⟩ := rounded.near close rounds finite
    -- Three steps above one of the greatest numbers there are no finite ones: these are evaluated.
    refine ⟨?_, unsigned, atMost, atLeast, fun few small => (exact few small).1⟩
    rcases Nat.lt_or_ge (x.magnitude + 3) BinaryFormat.double.infinity with inside | largest
    · exact Nat.lt_of_le_of_lt atMost inside
    · exact shown.finite_of_largest finite largest

/-- And reading it gives nothing else. -/
theorem Shows.magnitude?_eq {x : Double} (finite : x.IsFinite) {n : Numeral}
    (shown : n.Shows (Json.writtenDecimal x)) :
    n.magnitude? = some (applyPower (Binary.ofNat n.significand) n.power) := by
  obtain ⟨low, high⟩ := shown.power_bounds finite
  have great : greatestPower = 308 := rfl
  rw [magnitude?_eq_scale n shown.modest]
  apply scale_eq_applyPower _ _ ?_ (by omega) high (shown.readsBack finite).finite
  intro deep
  apply (approximates_ofNat n.significand ?_ shown.modest.fits).nonzero
  -- Zero is written with a power that is not so low.
  apply Nat.pos_of_ne_zero
  intro noDigits
  rcases shown.parts with ⟨-, power⟩ | ⟨-, -, power⟩
  · rw [Json.writtenDecimal_zero x (shown.magnitude_eq_zero noDigits)] at power
    simp only at power
    omega
  · omega

end Raster.Numeral
