import Mathlib.Tactic.FieldSimp
import Mathlib.Tactic.Ring
import Raster.Binary.Arithmetic
import Raster.Proofs.Binary.Value

/-!
# Rounding

A result is rounded to a whole count of units of its place. The place is chosen so that the count is
a significand of the format. Rounding does not pass a number of the format: what is at most such a
number is rounded to at most that number, and what is at least one to at least it. So a number of the
format is its own rounding.
-/

namespace Raster

/-! ### To the nearest integer -/

theorem roundHalfEven_le (n d k : Nat) (positive : 0 < d) (below : n ≤ k * d) :
    roundHalfEven n d ≤ k := by
  have floorLe : n / d ≤ k := Nat.div_le_of_le_mul (Nat.mul_comm k d ▸ below)
  have parity := Nat.mod_lt (n / d) two_pos
  rcases Nat.eq_zero_or_pos (n % d) with whole | fraction
  · simp only [roundHalfEven, whole]
    split <;> omega
  · -- The integer is reached by the rounded quotient only, not by the quotient.
    have floorLt : n / d < k := by
      apply (Nat.div_lt_iff_lt_mul positive).mpr
      apply Nat.lt_of_le_of_ne below
      rintro rfl
      simp at fraction
    simp only [roundHalfEven]
    split
    · exact floorLe
    · split <;> omega

theorem le_roundHalfEven (n d k : Nat) (positive : 0 < d) (above : k * d ≤ n) :
    k ≤ roundHalfEven n d := by
  -- The integer quotient is the least that rounding returns.
  have leFloor : k ≤ n / d := (Nat.le_div_iff_mul_le positive).mpr above
  simp only [roundHalfEven]
  split
  · exact leFloor
  · split <;> omega

/-! ### Choice of the place -/

theorem quotientLog2_bounds (n d : Nat) (positiveN : 0 < n) (positiveD : 0 < d) :
    (2 : Rat) ^ quotientLog2 n d * d ≤ n ∧ (n : Rat) < 2 ^ (quotientLog2 n d + 1) * d := by
  have chosen : quotientLog2 n d =
      ((n * 2 ^ (d.log2 + 1) / d).log2 : Int) - (d.log2 + 1 : Nat) := by
    rw [← Nat.shiftLeft_eq]
    rfl
  have below : d < 2 ^ (d.log2 + 1) := Nat.lt_log2_self
  have quotientPos : n * 2 ^ (d.log2 + 1) / d ≠ 0 := by
    apply Nat.ne_of_gt
    apply Nat.div_pos _ positiveD
    exact Nat.le_trans (Nat.le_of_lt below) (Nat.le_mul_of_pos_left _ positiveN)
  -- The logarithm of the integer quotient is that of the quotient, which is shifted by so many bits.
  have low := (Nat.le_div_iff_mul_le positiveD).mp (Nat.log2_self_le quotientPos)
  have high := (Nat.div_lt_iff_lt_mul positiveD).mp
    (Nat.lt_log2_self (n := n * 2 ^ (d.log2 + 1) / d))
  have unit : (0 : Rat) < 2 ^ (d.log2 + 1) := by positivity
  rw [chosen]
  generalize (n * 2 ^ (d.log2 + 1) / d).log2 = l at low high
  generalize d.log2 + 1 = shift at low high unit
  have lowRat : (2 : Rat) ^ l * d ≤ n * 2 ^ shift := by exact_mod_cast low
  have highRat : (n : Rat) * 2 ^ shift < 2 ^ (l + 1) * d := by exact_mod_cast high
  constructor
  · rw [zpow_sub₀ two_ne_zero, zpow_natCast, zpow_natCast, div_mul_eq_mul_div, div_le_iff₀ unit]
    exact lowRat
  · have next : (l : Int) - shift + 1 = (l + 1 : Nat) - shift := by push_cast; ring
    rw [next, zpow_sub₀ two_ne_zero, zpow_natCast, zpow_natCast, div_mul_eq_mul_div,
      lt_div_iff₀ unit]
    exact highRat

namespace Binary

variable (f : BinaryFormat) (n d : Nat) (e : Int)

/-- How many places the result has above the lowest one. -/
def placesUp : Nat :=
  (placeOf f n d e - f.lowestExponent).toNat

/-- The dividend in units of the place, over `scaledDivisor`. -/
def scaledDividend : Nat :=
  n <<< (e - placeOf f n d e).toNat

def scaledDivisor : Nat :=
  d <<< (placeOf f n d e - e).toNat

theorem lowestExponent_add_placesUp :
    f.lowestExponent + (placesUp f n d e : Int) = placeOf f n d e := by
  unfold placesUp placeOf
  omega

theorem scaledDivisor_pos (positive : 0 < d) : 0 < scaledDivisor f n d e := by
  rw [scaledDivisor, Nat.shiftLeft_eq]
  exact Nat.mul_pos positive (Nat.two_pow_pos _)

theorem scaledDividend_eq :
    (scaledDividend f n d e : Rat) = n * 2 ^ ((e - placeOf f n d e).toNat : Int) := by
  rw [scaledDividend, Nat.shiftLeft_eq, zpow_natCast]
  push_cast
  rfl

theorem scaledDivisor_eq :
    (scaledDivisor f n d e : Rat) = d * 2 ^ ((placeOf f n d e - e).toNat : Int) := by
  rw [scaledDivisor, Nat.shiftLeft_eq, zpow_natCast]
  push_cast
  rfl

/-- Comparison with a count of units of the lowest place. -/
theorem scaled_eq (units : Nat) :
    (scaledDividend f n d e : Rat) * 2 ^ placesUp f n d e =
        n * 2 ^ e * 2 ^ ((placeOf f n d e - e).toNat - f.lowestExponent) ∧
      (units : Rat) * scaledDivisor f n d e =
        units * 2 ^ f.lowestExponent * d * 2 ^ ((placeOf f n d e - e).toNat - f.lowestExponent) := by
  have place := lowestExponent_add_placesUp f n d e
  rw [scaledDividend_eq, scaledDivisor_eq, ← zpow_natCast 2 (placesUp f n d e)]
  constructor
  · rw [mul_assoc, mul_assoc, ← zpow_add₀ two_ne_zero, ← zpow_add₀ two_ne_zero]
    congr 2
    omega
  · rw [zpow_sub₀ two_ne_zero]
    have nonzero : (2 : Rat) ^ f.lowestExponent ≠ 0 := zpow_ne_zero _ two_ne_zero
    field_simp

theorem scaled_le_iff (units : Nat) :
    scaledDividend f n d e * 2 ^ placesUp f n d e ≤ units * scaledDivisor f n d e ↔
      (n : Rat) * 2 ^ e ≤ units * 2 ^ f.lowestExponent * d := by
  obtain ⟨left, right⟩ := scaled_eq f n d e units
  rw [← Nat.cast_le (α := Rat)]
  push_cast
  rw [left, right, mul_le_mul_iff_left₀ (zpow_pos two_pos _)]

theorem le_scaled_iff (units : Nat) :
    units * scaledDivisor f n d e ≤ scaledDividend f n d e * 2 ^ placesUp f n d e ↔
      (units : Rat) * 2 ^ f.lowestExponent * d ≤ n * 2 ^ e := by
  obtain ⟨left, right⟩ := scaled_eq f n d e units
  rw [← Nat.cast_le (α := Rat)]
  push_cast
  rw [left, right, mul_le_mul_iff_left₀ (zpow_pos two_pos _)]

theorem leadingBit_eq_zpow : (f.leadingBit : Rat) = 2 ^ (f.fractionBits : Int) := by
  rw [f.leadingBit_eq, zpow_natCast, Nat.pow_eq, Nat.cast_pow, Nat.cast_ofNat]

/-- At the place that is chosen the quotient is below the next power of two, and unless the place is
the lowest one it has the leading bit. -/
theorem scaledDividend_bounds (positiveN : 0 < n) (positiveD : 0 < d) :
    scaledDividend f n d e ≤ 2 * f.leadingBit * scaledDivisor f n d e ∧
      (0 < placesUp f n d e → f.leadingBit * scaledDivisor f n d e ≤ scaledDividend f n d e) := by
  obtain ⟨low, high⟩ := quotientLog2_bounds n d positiveN positiveD
  have divisor : (0 : Rat) < d := Nat.cast_pos.mpr positiveD
  rw [← Nat.cast_le (α := Rat), ← Nat.cast_le (α := Rat)]
  push_cast
  rw [scaledDividend_eq, scaledDivisor_eq, leadingBit_eq_zpow]
  constructor
  · -- No place leaves more than the bits of a significand above it.
    have exponents : quotientLog2 n d + 1 + ((e - placeOf f n d e).toNat : Int) ≤
        1 + f.fractionBits + ((placeOf f n d e - e).toNat : Int) := by
      unfold placeOf
      omega
    calc (n : Rat) * 2 ^ ((e - placeOf f n d e).toNat : Int)
        ≤ 2 ^ (quotientLog2 n d + 1) * d * 2 ^ ((e - placeOf f n d e).toNat : Int) :=
          mul_le_mul_of_nonneg_right high.le (by positivity)
      _ = d * 2 ^ (quotientLog2 n d + 1 + ((e - placeOf f n d e).toNat : Int)) := by
          rw [zpow_add₀ two_ne_zero (quotientLog2 n d + 1)]
          ring
      _ ≤ d * 2 ^ (1 + f.fractionBits + ((placeOf f n d e - e).toNat : Int)) :=
          mul_le_mul_of_nonneg_left (zpow_le_zpow_right₀ one_le_two exponents) divisor.le
      _ = 2 * 2 ^ (f.fractionBits : Int) * (d * 2 ^ ((placeOf f n d e - e).toNat : Int)) := by
          rw [zpow_add₀ two_ne_zero, zpow_add₀ two_ne_zero, zpow_one]
          ring
  · -- A place above the lowest one was chosen for the leading bit of the quotient.
    intro above
    have exponents : f.fractionBits + ((placeOf f n d e - e).toNat : Int) =
        quotientLog2 n d + ((e - placeOf f n d e).toNat : Int) := by
      unfold placesUp at above
      unfold placeOf at *
      omega
    calc (2 : Rat) ^ (f.fractionBits : Int) * (d * 2 ^ ((placeOf f n d e - e).toNat : Int))
        = d * 2 ^ (f.fractionBits + ((placeOf f n d e - e).toNat : Int)) := by
          rw [zpow_add₀ two_ne_zero]
          ring
      _ = 2 ^ quotientLog2 n d * d * 2 ^ ((e - placeOf f n d e).toNat : Int) := by
          rw [exponents, zpow_add₀ two_ne_zero]
          ring
      _ ≤ n * 2 ^ ((e - placeOf f n d e).toNat : Int) :=
          mul_le_mul_of_nonneg_right low (by positivity)

/-! ### Words of rounded results -/

/-- A significand so many places above the lowest. -/
theorem unitsOf_add (m places : Nat) (fits : m ≤ 2 * f.leadingBit)
    (normal : 0 < places → f.leadingBit ≤ m) :
    unitsOf f (m + places * f.leadingBit) = m * 2 ^ places := by
  have positive := f.leadingBit_pos
  rcases Nat.lt_or_ge m f.leadingBit with subnormal | leading
  · -- Without a leading bit the place is the lowest one.
    obtain rfl : places = 0 := by
      apply Nat.eq_zero_of_not_pos
      intro above
      exact absurd (normal above) (Nat.not_le_of_lt subnormal)
    rw [Nat.zero_mul, Nat.add_zero, unitsOf_of_lt f m subnormal, Nat.pow_zero, Nat.mul_one]
  · rcases Nat.lt_or_eq_of_le fits with below | carried
    · obtain ⟨fraction, rfl⟩ := Nat.exists_eq_add_of_le leading
      have word : f.leadingBit + fraction + places * f.leadingBit =
          (places + 1) * f.leadingBit + fraction := by
        rw [Nat.succ_mul]
        omega
      rw [word, unitsOf_normal f places fraction (by omega)]
    · -- Rounding has carried into the next power of two.
      have word : m + places * f.leadingBit = (places + 1 + 1) * f.leadingBit + 0 := by
        rw [Nat.succ_mul, Nat.succ_mul]
        omega
      rw [word, unitsOf_normal f (places + 1) 0 positive, carried, Nat.pow_succ]
      ring

/-- A number of the format is a whole count of units of a place, or less than the leading bit of that
place. -/
theorem unitsOf_dvd_or_lt (magnitude places : Nat) :
    2 ^ places ∣ unitsOf f magnitude ∨
      (0 < places ∧ unitsOf f magnitude < f.leadingBit * 2 ^ places) := by
  rcases Nat.lt_or_ge magnitude f.leadingBit with subnormal | normal
  · rw [unitsOf_of_lt f magnitude subnormal]
    rcases Nat.eq_zero_or_pos places with rfl | above
    · exact .inl (one_dvd _)
    · have bound := Nat.le_mul_of_pos_right f.leadingBit (Nat.two_pow_pos places)
      exact .inr ⟨above, Nat.lt_of_lt_of_le subnormal bound⟩
  · obtain ⟨field, fraction, inside, rfl⟩ := exists_fields f magnitude normal
    rw [unitsOf_normal f field fraction inside]
    -- The exponent field is the place that the units of the number are of.
    rcases Nat.lt_or_ge field places with lower | above
    · refine .inr ⟨Nat.zero_lt_of_lt lower, ?_⟩
      calc (f.leadingBit + fraction) * 2 ^ field
          < 2 * f.leadingBit * 2 ^ field :=
            Nat.mul_lt_mul_of_pos_right (by omega) (Nat.two_pow_pos field)
        _ = f.leadingBit * 2 ^ (field + 1) := by rw [Nat.pow_succ]; ring
        _ ≤ f.leadingBit * 2 ^ places :=
            Nat.mul_le_mul_left _ (Nat.pow_le_pow_right two_pos lower)
    · left
      exact Dvd.dvd.mul_left (Nat.pow_dvd_pow 2 above) _

/-- The magnitude word of the rounded quotient, as long as there is no overflow. -/
def wordOf : Nat :=
  roundHalfEven (scaledDividend f n d e) (scaledDivisor f n d e) + placesUp f n d e * f.leadingBit

variable {f n d e}

theorem ofQuotient_of_pos (negative : Bool) (positive : 0 < n) :
    (ofQuotient negative n d e : Binary f) = ofMagnitude negative (wordOf f n d e) :=
  if_neg (Nat.ne_of_gt positive)

theorem unitsOf_wordOf (positiveN : 0 < n) (positiveD : 0 < d) :
    unitsOf f (wordOf f n d e) =
      roundHalfEven (scaledDividend f n d e) (scaledDivisor f n d e) * 2 ^ placesUp f n d e := by
  have divisor := scaledDivisor_pos f n d e positiveD
  obtain ⟨high, low⟩ := scaledDividend_bounds f n d e positiveN positiveD
  exact unitsOf_add f _ _ (roundHalfEven_le _ _ _ divisor high) fun above =>
    le_roundHalfEven _ _ _ divisor (low above)

theorem negative_ofQuotient (negative : Bool) :
    (ofQuotient negative n d e : Binary f).negative = negative := by
  unfold ofQuotient
  split <;> rfl

/-! ### Rounding does not pass numbers -/

theorem magnitude_ofQuotient_le (negative : Bool) (positiveD : 0 < d) (x : Binary f)
    (below : (n : Rat) * 2 ^ e ≤ x.absolute * d) :
    (ofQuotient negative n d e : Binary f).magnitude ≤ x.magnitude := by
  rcases Nat.eq_zero_or_pos n with rfl | positiveN
  · exact Nat.le_trans (Nat.min_le_left _ _) (Nat.zero_le _)
  · rw [x.absolute_eq_units, ← scaled_le_iff] at below
    have divisor := scaledDivisor_pos f n d e positiveD
    have power : 0 < 2 ^ placesUp f n d e := Nat.two_pow_pos _
    have rounded : wordOf f n d e ≤ x.magnitude := by
      rw [← (unitsOf_strictMono f).le_iff_le, unitsOf_wordOf positiveN positiveD]
      rcases unitsOf_dvd_or_lt f x.magnitude (placesUp f n d e) with ⟨count, whole⟩ | ⟨above, small⟩
      · -- The number is a count of units itself, so the quotient is rounded to at most that count.
        rw [whole, Nat.mul_comm (2 ^ _) count, Nat.mul_right_comm] at below
        rw [whole, Nat.mul_comm (2 ^ _) count]
        apply Nat.mul_le_mul_right
        exact roundHalfEven_le _ _ _ divisor (Nat.le_of_mul_le_mul_right below power)
      · -- A number with smaller units lies below the leading bit, and the quotient does not.
        have low := (scaledDividend_bounds f n d e positiveN positiveD).2 above
        have reaches := Nat.le_trans (Nat.mul_le_mul_right (2 ^ placesUp f n d e) low) below
        rw [Nat.mul_right_comm] at reaches
        exact absurd (Nat.le_of_mul_le_mul_right reaches divisor) (Nat.not_le_of_lt small)
    rw [ofQuotient_of_pos negative positiveN]
    exact Nat.le_trans (Nat.min_le_left _ _) rounded

theorem le_magnitude_ofQuotient (negative : Bool) (positiveN : 0 < n) (positiveD : 0 < d)
    (x : Binary f) (finite : x.IsFinite) (above : x.absolute * d ≤ (n : Rat) * 2 ^ e) :
    x.magnitude ≤ (ofQuotient negative n d e : Binary f).magnitude := by
  rw [x.absolute_eq_units, ← le_scaled_iff] at above
  have divisor := scaledDivisor_pos f n d e positiveD
  have power : 0 < 2 ^ placesUp f n d e := Nat.two_pow_pos _
  have rounded : x.magnitude ≤ wordOf f n d e := by
    rw [← (unitsOf_strictMono f).le_iff_le, unitsOf_wordOf positiveN positiveD]
    rcases unitsOf_dvd_or_lt f x.magnitude (placesUp f n d e) with ⟨count, whole⟩ | ⟨places, small⟩
    · -- The quotient is at least the count, so it is rounded to at least it.
      rw [whole, Nat.mul_comm (2 ^ _) count, Nat.mul_right_comm] at above
      rw [whole, Nat.mul_comm (2 ^ _) count]
      apply Nat.mul_le_mul_right
      exact le_roundHalfEven _ _ _ divisor (Nat.le_of_mul_le_mul_right above power)
    · -- The rounded quotient keeps its leading bit, and the number has none at that place.
      have low := (scaledDividend_bounds f n d e positiveN positiveD).2 places
      apply Nat.le_trans (Nat.le_of_lt small)
      exact Nat.mul_le_mul_right _ (le_roundHalfEven _ _ _ divisor low)
  rw [ofQuotient_of_pos negative positiveN]
  exact Nat.le_min.mpr ⟨rounded, Nat.le_of_lt finite⟩

/-- A number of the format is its own rounding. -/
theorem ofQuotient_eq (positiveN : 0 < n) (positiveD : 0 < d) (x : Binary f) (finite : x.IsFinite)
    (same : (n : Rat) * 2 ^ e = x.absolute * d) :
    (ofQuotient x.negative n d e : Binary f) = x := by
  have upper := magnitude_ofQuotient_le x.negative positiveD x same.le
  have lower := le_magnitude_ofQuotient x.negative positiveN positiveD x finite same.ge
  apply bits_injective
  rw [bits, bits, negative_ofQuotient, Nat.le_antisymm upper lower]

/-! ### Integers -/

/-- Some magnitude word stands for so many units of a place, if these fit into a significand. -/
theorem exists_unitsOf (f : BinaryFormat) (m places : Nat) (fits : m ≤ 2 * f.leadingBit) :
    ∃ magnitude, unitsOf f magnitude = m * 2 ^ places := by
  induction places generalizing m with
  | zero =>
    refine ⟨m, ?_⟩
    have word := unitsOf_add f m 0 fits fun positive => absurd positive (Nat.lt_irrefl 0)
    simpa using word
  | succ places ih =>
    rcases Nat.lt_or_ge m f.leadingBit with small | leading
    · -- A significand without its leading bit moves to the next lower place.
      obtain ⟨magnitude, stands⟩ := ih (2 * m) (by omega)
      refine ⟨magnitude, stands.trans ?_⟩
      rw [Nat.pow_succ]
      ring
    · exact ⟨_, unitsOf_add f m (places + 1) fits fun _ => leading⟩

theorem ofNat_eq_ofQuotient (f : BinaryFormat) (n : Nat) :
    (ofNat n : Binary f) = ofQuotient false n 1 0 := by
  have nonneg : decide ((n : Int) < 0) = false := decide_eq_false (by omega)
  rw [ofNat, ofScaledInt, nonneg]
  rfl

/-- Integers of at most as many bits as a significand are exact. -/
theorem toRat_ofNat (f : BinaryFormat) (n : Nat) (small : n ≤ 2 * f.leadingBit) :
    (ofNat n : Binary f).IsFinite ∧ (ofNat n : Binary f).toRat = n := by
  rw [ofNat_eq_ofQuotient]
  rcases Nat.eq_zero_or_pos n with rfl | positive
  · constructor
    · cases f <;> decide
    · exact toRat_zero.trans Nat.cast_zero.symm
  · -- Some number of the format stands for the integer, so it is its rounding.
    obtain ⟨magnitude, stands⟩ := exists_unitsOf f n (-f.lowestExponent).toNat small
    -- Counts of units this small are far below those of the largest number.
    have top : 2 * f.leadingBit * 2 ^ (-f.lowestExponent).toNat < unitsOf f f.infinity := by
      cases f <;> decide +kernel
    have finite : magnitude < f.infinity := by
      rw [← (unitsOf_strictMono f).lt_iff_lt, stands]
      exact Nat.lt_of_le_of_lt (Nat.mul_le_mul_right _ small) top
    let x : Binary f := ⟨false, magnitude, Nat.lt_trans finite f.infinity_lt_signBit⟩
    have value : x.absolute = n := by
      have lowest : ((-f.lowestExponent).toNat : Int) + f.lowestExponent = 0 := by
        cases f <;> rfl
      rw [absolute_eq_units]
      change (unitsOf f magnitude : Rat) * 2 ^ f.lowestExponent = n
      rw [stands, Nat.cast_mul, Nat.cast_pow, Nat.cast_ofNat, ← zpow_natCast, mul_assoc,
        ← zpow_add₀ two_ne_zero, lowest, zpow_zero, mul_one]
    have same := ofQuotient_eq (e := 0) positive Nat.one_pos x finite (by simp [value])
    change ofQuotient false n 1 0 = x at same
    rw [same]
    exact ⟨finite, value⟩

/-! ### Products -/

theorem mul_of_finite (x y : Binary f) (finiteX : x.IsFinite) (finiteY : y.IsFinite) :
    x * y = ofQuotient (x.negative != y.negative) (x.significand * y.significand) 1
      (x.exponent + y.exponent) := by
  change Binary.mul x y = _
  unfold Binary.mul
  simp [x.number_of_finite finiteX, y.number_of_finite finiteY]

/-- A product does not pass a number that the exact product does not pass. -/
theorem magnitude_mul_le (x y bound : Binary f) (finiteX : x.IsFinite) (finiteY : y.IsFinite)
    (below : x.absolute * y.absolute ≤ bound.absolute) : (x * y).magnitude ≤ bound.magnitude := by
  rw [mul_of_finite x y finiteX finiteY]
  apply magnitude_ofQuotient_le _ Nat.one_pos
  calc ((x.significand * y.significand : Nat) : Rat) * 2 ^ (x.exponent + y.exponent)
      = x.absolute * y.absolute := by
        rw [absolute, absolute, zpow_add₀ two_ne_zero]
        push_cast
        ring
    _ ≤ bound.absolute * (1 : Nat) := by simpa using below

/-- A share of a number that is not negative is not negative either, and at most the number. -/
theorem mul_share (x y : Binary f) (finiteX : x.IsFinite) (finiteY : y.IsFinite)
    (nonnegX : 0 ≤ x.toRat) (nonnegY : 0 ≤ y.toRat) (share : y.toRat ≤ 1) :
    (x * y).IsFinite ∧ 0 ≤ (x * y).toRat ∧ (x * y).toRat ≤ x.toRat := by
  have valueX := x.toRat_eq_absolute nonnegX
  have valueY := y.toRat_eq_absolute nonnegY
  have bounded : (x * y).magnitude ≤ x.magnitude := by
    apply magnitude_mul_le x y x finiteX finiteY
    exact mul_le_of_le_one_right x.absolute_nonneg (valueY ▸ share)
  have nonneg : 0 ≤ (x * y).toRat := by
    cases signed : (x * y).negative with
    | false => simp [toRat, signed, absolute_nonneg]
    | true =>
      -- One factor has a sign, so it is zero, and so is the product.
      have noProduct : x.absolute * y.absolute ≤ (zero : Binary f).absolute := by
        rw [mul_of_finite x y finiteX finiteY, negative_ofQuotient] at signed
        rw [absolute_zero]
        cases signX : x.negative with
        | true => rw [x.absolute_eq_zero nonnegX signX, zero_mul]
        | false =>
          have signY : y.negative = true := by simpa [signX] using signed
          rw [y.absolute_eq_zero nonnegY signY, mul_zero]
      have vanishes := magnitude_mul_le x y zero finiteX finiteY noProduct
      rw [← absolute_le_iff, absolute_zero] at vanishes
      simp [toRat, signed, vanishes]
  refine ⟨Nat.lt_of_le_of_lt bounded finiteX, nonneg, ?_⟩
  rw [toRat_eq_absolute _ nonneg, valueX, absolute_le_iff]
  exact bounded

end Binary

end Raster
