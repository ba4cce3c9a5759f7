import Raster.Decimal.Shortest
import Raster.Proofs.Binary.Distance
import Raster.Proofs.Binary.Integer

/-!
# Decimals that read back as a number

The test whether a decimal reads back as a number compares it with the boundaries of the number's
word. So it holds for exactly the decimals that are rounded to the number, and for the nearer
neighbour at every place that is fine enough.
-/

namespace Raster

/-- The value of a decimal. -/
def Decimal.toRat (d : Decimal) : Rat :=
  d.digits * (10 : Rat) ^ d.exponent

namespace Binary

variable {f : BinaryFormat}

/-! ### The test is a comparison with boundaries -/

/-- Comparison of a binary with a decimal, in whole numbers. -/
theorem scaled_compare (a b : Nat) (p e : Int) :
    (a * (1 <<< p.toNat * Nat.pow 10 (-e).toNat) <
        b * Nat.pow 10 e.toNat * 1 <<< (-p).toNat ↔
      (a : Rat) * 2 ^ p < b * 10 ^ e) ∧
    (b * Nat.pow 10 e.toNat * 1 <<< (-p).toNat <
        a * (1 <<< p.toNat * Nat.pow 10 (-e).toNat) ↔
      (b : Rat) * 10 ^ e < a * 2 ^ p) := by
  have binary : (2 : Rat) ^ p * 2 ^ (-p).toNat = 2 ^ p.toNat := by
    rw [← zpow_natCast, ← zpow_natCast, ← zpow_add₀ two_ne_zero]
    congr 1
    omega
  have decimal : (10 : Rat) ^ e * 10 ^ (-e).toNat = 10 ^ e.toNat := by
    rw [← zpow_natCast, ← zpow_natCast, ← zpow_add₀ (by norm_num)]
    congr 1
    omega
  have scale : (0 : Rat) < 2 ^ (-p).toNat * 10 ^ (-e).toNat := by positivity
  have left : ((a * (1 <<< p.toNat * Nat.pow 10 (-e).toNat) : Nat) : Rat) =
      a * 2 ^ p * (2 ^ (-p).toNat * 10 ^ (-e).toNat) := by
    rw [Nat.shiftLeft_eq, Nat.pow_eq]
    push_cast
    rw [← binary]
    ring
  have right : ((b * Nat.pow 10 e.toNat * 1 <<< (-p).toNat : Nat) : Rat) =
      b * 10 ^ e * (2 ^ (-p).toNat * 10 ^ (-e).toNat) := by
    rw [Nat.shiftLeft_eq, Nat.pow_eq]
    push_cast
    rw [← decimal]
    ring
  rw [← Nat.cast_lt (α := Rat), ← Nat.cast_lt (α := Rat), left, right,
    mul_lt_mul_iff_left₀ scale, mul_lt_mul_iff_left₀ scale]
  exact ⟨Iff.rfl, Iff.rfl⟩

theorem significand_mod_two (x : Binary f) : x.significand % 2 = x.magnitude % 2 := by
  have even := f.two_dvd_leadingBit
  unfold significand fraction
  split
  · rfl
  · rw [Nat.add_mod, Nat.mod_mod_of_dvd _ even]
    omega

theorem stepAt_succ_le (f : BinaryFormat) (word : Nat) : stepAt f (word + 1) ≤ 2 * stepAt f word := by
  unfold stepAt
  rw [← Nat.pow_succ']
  apply Nat.pow_le_pow_right two_pos
  have next : (word + 1) / f.leadingBit ≤ word / f.leadingBit + 1 := by
    rw [← Nat.add_div_right _ f.leadingBit_pos]
    exact Nat.div_le_div_right (Nat.add_le_add_left f.leadingBit_pos _)
  omega

/-- The last place of a number weighs one step. -/
theorem zpow_exponent (x : Binary f) :
    (2 : Rat) ^ x.exponent = stepAt f x.magnitude * 2 ^ f.lowestExponent := by
  rw [exponent, zpow_add₀ two_ne_zero, zpow_natCast, stepAt]
  push_cast
  ring

theorem unitsOf_magnitude (x : Binary f) :
    unitsOf f x.magnitude = x.significand * stepAt f x.magnitude :=
  rfl

/-- The step before a number, in quarters of its last place. -/
theorem lowerReach_mul_stepAt (x : Binary f) {before : Nat} (next : x.magnitude = before + 1) :
    x.lowerReach * stepAt f x.magnitude = 2 * stepAt f before := by
  have leading := f.leadingBit_pos
  rcases Nat.lt_or_ge x.magnitude f.leadingBit with subnormal | normal
  · have same : x.significand ≠ f.leadingBit := by
      rw [significand, if_pos subnormal]
      omega
    rw [lowerReach, if_neg fun first => same first.1, stepAt_of_lt f _ subnormal,
      stepAt_of_lt f before (by omega)]
  · obtain ⟨field, fraction, inside, fields⟩ := exists_fields f x.magnitude normal
    have significand : x.significand = f.leadingBit + fraction := by
      rw [Binary.significand, if_neg (Nat.not_lt_of_le normal), Binary.fraction, fields,
        Nat.add_comm _ fraction, Nat.add_mul_mod_self_right, Nat.mod_eq_of_lt inside]
    have quotient : x.magnitude / f.leadingBit = field + 1 := by
      rw [fields, Nat.add_comm, Nat.add_mul_div_right _ _ leading, Nat.div_eq_of_lt inside,
        Nat.zero_add]
    have exponent : x.exponent = f.lowestExponent + field := by
      rw [Binary.exponent, quotient, Nat.add_sub_cancel]
    have step : stepAt f x.magnitude = 2 ^ field := by
      rw [fields, stepAt_normal f field fraction inside]
    -- The step before is shorter only at a power of two, and not at the least of them.
    rw [lowerReach, significand, exponent, step]
    rcases Nat.eq_zero_or_pos fraction with rfl | within
    · rcases Nat.eq_zero_or_pos field with rfl | above
      · rw [if_neg (by omega), stepAt_of_lt f before (by omega), Nat.pow_zero]
      · obtain ⟨lower, rfl⟩ := Nat.exists_eq_add_one_of_ne_zero (Nat.ne_of_gt above)
        have last : before = (lower + 1) * f.leadingBit + (f.leadingBit - 1) := by
          rw [Nat.succ_mul] at fields
          omega
        rw [if_pos (by omega), last, stepAt_normal f lower _ (by omega), Nat.pow_succ]
        ring
    · have last : before = (field + 1) * f.leadingBit + (fraction - 1) := by omega
      rw [if_neg (by omega), last, stepAt_normal f field _ (by omega)]

/-- The ends of the interval of the test are the boundaries of the number's word. -/
theorem boundaries_eq (x : Binary f) :
    ((4 * x.significand + 2 : Nat) : Rat) * 2 ^ x.exponent =
        2 * (boundary f x.magnitude * 2 ^ f.lowestExponent) ∧
      ∀ before, x.magnitude = before + 1 →
        ((4 * x.significand - x.lowerReach : Nat) : Rat) * 2 ^ x.exponent =
          2 * (boundary f before * 2 ^ f.lowestExponent) := by
  have stands := x.unitsOf_magnitude
  constructor
  · rw [x.zpow_exponent, boundary, unitsOf_succ, stands]
    push_cast
    ring
  · intro before next
    have reach := x.lowerReach_mul_stepAt next
    have below := unitsOf_succ f before
    rw [← next, stands] at below
    have nat : (4 * x.significand - x.lowerReach) * stepAt f x.magnitude =
        2 * boundary f before := by
      rw [boundary, ← next, stands, Nat.sub_mul, reach, Nat.mul_assoc]
      omega
    rw [x.zpow_exponent, ← mul_assoc, ← mul_assoc]
    congr 1
    exact_mod_cast nat

/-- A decimal reads back as a number exactly if it is rounded to it. -/
theorem readsAs_iff (x : Binary f) (d : Decimal) (nonzero : x.magnitude ≠ 0) :
    x.readsAs d = true ↔ RoundsTo f d.toRat x.magnitude := by
  obtain ⟨before, next⟩ := Nat.exists_eq_add_one_of_ne_zero nonzero
  obtain ⟨high, low⟩ := x.boundaries_eq
  have lower := scaled_compare (4 * x.significand - x.lowerReach) (4 * d.digits) x.exponent d.exponent
  have upper := scaled_compare (4 * x.significand + 2) (4 * d.digits) x.exponent d.exponent
  have point : ((4 * d.digits : Nat) : Rat) * 10 ^ d.exponent = 2 * (2 * d.toRat) := by
    rw [Decimal.toRat]
    push_cast
    ring
  rw [low before next, point, mul_lt_mul_iff_right₀ two_pos, mul_lt_mul_iff_right₀ two_pos] at lower
  rw [high, point, mul_lt_mul_iff_right₀ two_pos, mul_lt_mul_iff_right₀ two_pos] at upper
  have parity := x.significand_mod_two
  have onlyBefore : (∀ word, x.magnitude = word + 1 → ¬RoundsToAtMost f d.toRat word) ↔
      ¬RoundsToAtMost f d.toRat before :=
    ⟨fun all => all before next, fun one word same => by
      rwa [show word = before by omega]⟩
  -- Both ends belong to the interval or neither does, as ties go to the even one of two neighbours.
  rw [RoundsTo, onlyBefore, RoundsToAtMost, RoundsToAtMost, readsAs]
  simp only [parity]
  split
  next even =>
    have oddBefore : before % 2 ≠ 0 := by omega
    rw [decide_eq_true_eq, ← not_lt, ← not_lt, lower.2, upper.1]
    simp only [even, oddBefore, and_true, and_false, or_false, not_lt, ← le_iff_lt_or_eq]
    exact and_comm
  next odd =>
    have evenBefore : before % 2 = 0 := by omega
    rw [decide_eq_true_eq, lower.1, upper.2]
    simp only [odd, evenBefore, and_true, and_false, or_false, ← le_iff_lt_or_eq, not_le]
    exact and_comm

/-! ### Candidates at a place -/

/-- What is less than a quarter of a step away from a number is rounded to it. -/
theorem roundsTo_of_abs_lt {v : Rat} {word : Nat}
    (near : |v - wordValue f word| < stepAt f word * 2 ^ f.lowestExponent / 4) :
    RoundsTo f v word := by
  have unit : (0 : Rat) < 2 ^ f.lowestExponent := zpow_pos two_pos _
  obtain ⟨below, above⟩ := abs_lt.mp near
  constructor
  · left
    rw [boundary, unitsOf_succ]
    unfold wordValue at *
    push_cast
    linarith [mul_nonneg (Nat.cast_nonneg (α := Rat) (stepAt f word)) unit.le]
  · rintro before rfl
    have half : (stepAt f (before + 1) : Rat) ≤ 2 * stepAt f before := by
      exact_mod_cast stepAt_succ_le f before
    have scaled := mul_le_mul_of_nonneg_right half unit.le
    have positive : (0 : Rat) < stepAt f (before + 1) * 2 ^ f.lowestExponent :=
      mul_pos (Nat.cast_pos.mpr (stepAt_pos f _)) unit
    have next := unitsOf_succ f before
    have greater : (boundary f before : Rat) * 2 ^ f.lowestExponent < 2 * v := by
      unfold wordValue at *
      rw [boundary]
      rw [next] at below ⊢
      push_cast at below ⊢
      linarith
    rintro (less | ⟨same, -⟩) <;> linarith

theorem roundHalfUp_bounds (n d : Nat) (positive : 0 < d) :
    2 * n < (2 * roundHalfUp n d + 1) * d ∧ 2 * roundHalfUp n d * d ≤ 2 * n + d := by
  have lower := Nat.div_mul_le_self (2 * n + d) (2 * d)
  have upper := Nat.lt_div_mul_add (a := 2 * n + d) (Nat.mul_pos two_pos positive)
  unfold roundHalfUp
  generalize (2 * n + d) / (2 * d) = m at *
  have twice : m * (2 * d) = 2 * m * d := by ring
  have next : (2 * m + 1) * d = 2 * m * d + d := by ring
  omega

theorem quotient_pos (x : Binary f) : 0 < x.quotient.2 := by
  rw [quotient, Nat.one_shiftLeft]
  exact Nat.two_pow_pos _

/-- The quotient of which the candidates at a place are the neighbours. -/
theorem quotient_eq (x : Binary f) (place : Int) :
    ((x.quotient.1 * Nat.pow 10 (-place).toNat : Nat) : Rat) /
      ((x.quotient.2 * Nat.pow 10 place.toNat : Nat) : Rat) = x.absolute / 10 ^ place := by
  have split : place = (place.toNat : Int) - ((-place).toNat : Int) := by omega
  have ten : (10 : Rat) ≠ 0 := by norm_num
  rw [absolute_eq_div]
  conv_rhs => rw [split, zpow_sub₀ ten, zpow_natCast, zpow_natCast]
  simp only [quotient, Nat.pow_eq]
  push_cast
  field_simp

theorem decimalAt?_eq_some {tie : Decimal.Tie} {x : Binary f} {place : Int} {d : Decimal}
    (found : x.decimalAt? tie place = some d) : x.readsAs d = true ∧ d.exponent = place := by
  refine ⟨List.find?_some found, ?_⟩
  obtain ⟨digits, -, rfl⟩ := List.mem_map.mp (List.mem_of_find?_eq_some found)
  rfl

/-- The integer nearest to a quotient, by the rule for ties. -/
def nearestInteger : Decimal.Tie → Nat → Nat → Nat
  | .toEven => roundHalfEven
  | .up => roundHalfUp

theorem abs_nearestInteger_sub_le (tie : Decimal.Tie) (n d : Nat) (positive : 0 < d) :
    |(nearestInteger tie n d : Rat) - n / d| ≤ 1 / 2 := by
  have bound (m : Nat) (below : 2 * n ≤ (2 * m + 1) * d) (above : 2 * m * d ≤ 2 * n + d) :
      |(m : Rat) - n / d| ≤ 1 / 2 := by
    have divisor : (0 : Rat) < d := Nat.cast_pos.mpr positive
    have belowRat : (2 * n : Rat) ≤ (2 * m + 1) * d := by exact_mod_cast below
    have aboveRat : (2 * m * d : Rat) ≤ 2 * n + d := by exact_mod_cast above
    have low : (n : Rat) / d ≤ m + 1 / 2 := by
      rw [div_le_iff₀ divisor]
      linarith
    have high : m - 1 / 2 ≤ (n : Rat) / d := by
      rw [le_div_iff₀ divisor]
      linarith
    rw [abs_le]
    constructor <;> linarith
  cases tie with
  | toEven =>
    obtain ⟨below, above⟩ := roundHalfEven_bounds n d positive
    exact bound _ (below.elim Nat.le_of_lt fun tie => tie.1.le)
      (above.elim Nat.le_of_lt fun tie => tie.1.le)
  | up =>
    obtain ⟨below, above⟩ := roundHalfUp_bounds n d positive
    exact bound _ (Nat.le_of_lt below) above

/-- At a place of less than half a step the nearer neighbour reads back as the number. -/
theorem exists_decimalAt? (tie : Decimal.Tie) (x : Binary f) (nonzero : x.magnitude ≠ 0)
    (place : Int) (fine : 2 * (10 : Rat) ^ place < stepAt f x.magnitude * 2 ^ f.lowestExponent) :
    ∃ d, x.decimalAt? tie place = some d := by
  let n := x.quotient.1 * Nat.pow 10 (-place).toNat
  let d := x.quotient.2 * Nat.pow 10 place.toNat
  let nearest := Decimal.mk (nearestInteger tie n d) place
  have positive : 0 < d := Nat.mul_pos x.quotient_pos (Nat.pow_pos (by decide))
  have half := abs_nearestInteger_sub_le tie n d positive
  rw [x.quotient_eq] at half
  have unit : (0 : Rat) < 10 ^ place := zpow_pos (by norm_num) _
  have near : |nearest.toRat - wordValue f x.magnitude| <
      stepAt f x.magnitude * 2 ^ f.lowestExponent / 4 :=
    calc |nearest.toRat - wordValue f x.magnitude|
        = |nearestInteger tie n d - x.absolute / 10 ^ place| * 10 ^ place := by
          rw [← absolute_eq_wordValue, Decimal.toRat, ← abs_of_pos unit, ← abs_mul, abs_of_pos unit,
            sub_mul, div_mul_cancel₀ _ unit.ne']
      _ ≤ 1 / 2 * 10 ^ place := mul_le_mul_of_nonneg_right half unit.le
      _ < stepAt f x.magnitude * 2 ^ f.lowestExponent / 4 := by linarith
  have reads : x.readsAs nearest = true := (x.readsAs_iff _ nonzero).mpr (roundsTo_of_abs_lt near)
  apply Option.isSome_iff_exists.mp
  cases tie <;> exact List.find?_isSome.mpr ⟨nearest, List.mem_cons_self, reads⟩

end Binary

end Raster
