import Mathlib.Tactic.Positivity
import Raster.Proofs.Binary.Rounding

/-!
# Nearest numbers

Half way between two neighbours lies the boundary of the reals that are rounded to the lower one.
Which side of each boundary a real is on determines its rounding, and how far a rounding is from
what was rounded.
-/

namespace Raster

/-- The rounded quotient is at most half a unit above or below, and even where it is just half a
unit. -/
theorem roundHalfEven_bounds (n d : Nat) (positive : 0 < d) :
    (2 * n < (2 * roundHalfEven n d + 1) * d ∨
        2 * n = (2 * roundHalfEven n d + 1) * d ∧ roundHalfEven n d % 2 = 0) ∧
      (2 * roundHalfEven n d * d < 2 * n + d ∨
        2 * roundHalfEven n d * d = 2 * n + d ∧ roundHalfEven n d % 2 = 0) := by
  have divided := Nat.div_add_mod' n d
  have restLt := Nat.mod_lt n positive
  unfold roundHalfEven
  generalize n / d = floor at divided ⊢
  generalize n % d = rest at divided restLt ⊢
  subst divided
  have below : (2 * floor + 1) * d = 2 * (floor * d) + d := by ring
  have above : (2 * (floor + 1) + 1) * d = 2 * (floor * d) + 3 * d := by ring
  have floorTwice : 2 * floor * d = 2 * (floor * d) := by ring
  have nextTwice : 2 * (floor + 1) * d = 2 * (floor * d) + 2 * d := by ring
  -- Only the rest decides, by the side of half a divisor that it is on.
  rcases Nat.lt_trichotomy (2 * rest) d with down | tie | up
  · simp only [down, if_true]
    omega
  · have notDown : ¬2 * rest < d := by omega
    have notUp : ¬d < 2 * rest := by omega
    simp only [notDown, notUp, if_false]
    rcases Nat.mod_two_eq_zero_or_one floor with even | odd
    · rw [show floor + floor % 2 = floor by omega]
      omega
    · rw [show floor + floor % 2 = floor + 1 by omega]
      omega
  · have notDown : ¬2 * rest < d := by omega
    simp only [notDown, up, if_false, if_true]
    omega

theorem BinaryFormat.two_dvd_leadingBit (f : BinaryFormat) : 2 ∣ f.leadingBit := by
  cases f <;> decide

namespace Binary

variable {f : BinaryFormat}

/-! ### Steps between neighbours -/

/-- The distance to the next magnitude word, in units. -/
def stepAt (f : BinaryFormat) (word : Nat) : Nat :=
  2 ^ (word / f.leadingBit - 1)

theorem stepAt_pos (f : BinaryFormat) (word : Nat) : 0 < stepAt f word :=
  Nat.two_pow_pos _

theorem stepAt_of_lt (f : BinaryFormat) (word : Nat) (subnormal : word < f.leadingBit) :
    stepAt f word = 1 := by
  rw [stepAt, Nat.div_eq_of_lt subnormal, Nat.pow_zero]

theorem stepAt_normal (f : BinaryFormat) (field fraction : Nat) (inside : fraction < f.leadingBit) :
    stepAt f ((field + 1) * f.leadingBit + fraction) = 2 ^ field := by
  rw [stepAt, Nat.add_comm, Nat.add_mul_div_right _ _ f.leadingBit_pos, Nat.div_eq_of_lt inside,
    Nat.zero_add, Nat.add_sub_cancel]

theorem unitsOf_succ (f : BinaryFormat) (word : Nat) :
    unitsOf f (word + 1) = unitsOf f word + stepAt f word := by
  rcases Nat.lt_or_ge word f.leadingBit with subnormal | normal
  · rw [unitsOf_of_lt f word subnormal, stepAt_of_lt f word subnormal]
    have next := unitsOf_add f (word + 1) 0 (by omega) fun positive => absurd positive (Nat.lt_irrefl 0)
    simpa using next
  · obtain ⟨field, fraction, inside, rfl⟩ := exists_fields f word normal
    have word : (field + 1) * f.leadingBit + fraction + 1 =
        (f.leadingBit + (fraction + 1)) + field * f.leadingBit := by ring
    rw [word, unitsOf_add f _ field (by omega) fun _ => by omega,
      unitsOf_normal f field fraction inside, stepAt_normal f field fraction inside]
    ring

/-- A step is at most one part of the number in as many as there are fractions, or one unit. -/
theorem stepAt_mul_le (f : BinaryFormat) (word : Nat) :
    stepAt f word * f.leadingBit ≤ unitsOf f word + f.leadingBit := by
  rcases Nat.lt_or_ge word f.leadingBit with subnormal | normal
  · rw [stepAt_of_lt f word subnormal]
    omega
  · obtain ⟨field, fraction, inside, rfl⟩ := exists_fields f word normal
    rw [unitsOf_normal f field fraction inside, stepAt_normal f field fraction inside]
    calc 2 ^ field * f.leadingBit = f.leadingBit * 2 ^ field := Nat.mul_comm ..
      _ ≤ (f.leadingBit + fraction) * 2 ^ field := Nat.mul_le_mul_right _ (Nat.le_add_right ..)
      _ ≤ (f.leadingBit + fraction) * 2 ^ field + f.leadingBit := Nat.le_add_right ..

/-! ### Boundaries -/

/-- Twice the units half way between a magnitude word and the next one. -/
def boundary (f : BinaryFormat) (word : Nat) : Nat :=
  unitsOf f word + unitsOf f (word + 1)

theorem boundary_strictMono (f : BinaryFormat) : StrictMono (boundary f) := fun _ _ less =>
  Nat.add_lt_add (unitsOf_strictMono f less) (unitsOf_strictMono f (Nat.succ_lt_succ less))

/-- What a magnitude word stands for. -/
def wordValue (f : BinaryFormat) (word : Nat) : Rat :=
  unitsOf f word * (2 : Rat) ^ f.lowestExponent

/-- Whether a real is rounded to at most this magnitude word: it is below the boundary of the word,
or on it, and the word is the even one of the two neighbours. -/
def RoundsToAtMost (f : BinaryFormat) (v : Rat) (word : Nat) : Prop :=
  2 * v < boundary f word * (2 : Rat) ^ f.lowestExponent ∨
    2 * v = boundary f word * (2 : Rat) ^ f.lowestExponent ∧ word % 2 = 0

/-- The number is the rounding of this real, apart from its sign. -/
def IsRoundingOf (v : Rat) (y : Binary f) : Prop :=
  y.magnitude ≤ f.infinity ∧ ∀ word < f.infinity, y.magnitude ≤ word ↔ RoundsToAtMost f v word

theorem RoundsToAtMost.of_lt {v : Rat} {word next : Nat} (below : RoundsToAtMost f v word)
    (less : word < next) : RoundsToAtMost f v next := by
  left
  have greater : (boundary f word : Rat) * 2 ^ f.lowestExponent <
      boundary f next * 2 ^ f.lowestExponent :=
    mul_lt_mul_of_pos_right (Nat.cast_lt.mpr (boundary_strictMono f less)) (zpow_pos two_pos _)
  rcases below with below | ⟨same, -⟩ <;> linarith

/-- A number of the format is rounded to itself. -/
theorem roundsToAtMost_wordValue {v : Rat} {word : Nat} (below : v ≤ wordValue f word) :
    RoundsToAtMost f v word := by
  left
  have half : 2 * unitsOf f word < boundary f word := by
    have next := unitsOf_lt_succ f word
    unfold boundary
    omega
  have halfRat : (2 * unitsOf f word : Rat) < boundary f word := by exact_mod_cast half
  have unit : (0 : Rat) < 2 ^ f.lowestExponent := zpow_pos two_pos _
  calc 2 * v ≤ 2 * unitsOf f word * 2 ^ f.lowestExponent := by
        unfold wordValue at below
        linarith
    _ < boundary f word * 2 ^ f.lowestExponent := mul_lt_mul_of_pos_right halfRat unit

theorem not_roundsToAtMost_wordValue {v : Rat} {word : Nat} (above : wordValue f (word + 1) ≤ v) :
    ¬RoundsToAtMost f v word := by
  have half : boundary f word < 2 * unitsOf f (word + 1) := by
    have next := unitsOf_lt_succ f word
    unfold boundary
    omega
  have halfRat : (boundary f word : Rat) < 2 * unitsOf f (word + 1) := by exact_mod_cast half
  have unit : (0 : Rat) < 2 ^ f.lowestExponent := zpow_pos two_pos _
  have less : (boundary f word : Rat) * 2 ^ f.lowestExponent < 2 * v := by
    calc (boundary f word : Rat) * 2 ^ f.lowestExponent
        < 2 * unitsOf f (word + 1) * 2 ^ f.lowestExponent := mul_lt_mul_of_pos_right halfRat unit
      _ ≤ 2 * v := by
        unfold wordValue at above
        linarith
  rintro (below | ⟨same, -⟩) <;> linarith

/-! ### The rounding of a quotient -/

section Quotient

variable {n d : Nat} {e : Int}

theorem wordOf_mod_two :
    wordOf f n d e % 2 = roundHalfEven (scaledDividend f n d e) (scaledDivisor f n d e) % 2 := by
  obtain ⟨half, twice⟩ := f.two_dvd_leadingBit
  rw [wordOf, twice, Nat.mul_left_comm, Nat.add_mul_mod_self_left]

/-- The word after the rounded one stands for one unit of the place more, or for two. -/
theorem le_unitsOf_wordOf_succ (positiveN : 0 < n) (positiveD : 0 < d) :
    (roundHalfEven (scaledDividend f n d e) (scaledDivisor f n d e) + 1) * 2 ^ placesUp f n d e ≤
      unitsOf f (wordOf f n d e + 1) := by
  have leading := f.leadingBit_pos
  rw [unitsOf_succ, unitsOf_wordOf positiveN positiveD, Nat.succ_mul]
  apply Nat.add_le_add_left
  apply Nat.pow_le_pow_right two_pos
  have low := (scaledDividend_bounds f n d e positiveN positiveD).2
  have divisor := scaledDivisor_pos f n d e positiveD
  unfold wordOf
  rw [Nat.add_mul_div_right _ _ leading]
  -- Above the lowest place the leading bit is there, so the word after it is a step of that place.
  rcases Nat.eq_zero_or_pos (placesUp f n d e) with lowest | above
  · omega
  · have reaches := Nat.div_pos (le_roundHalfEven _ _ _ divisor (low above)) leading
    omega

/-- The comparison of a quotient with a boundary, in units of its place. -/
theorem scaled_lt_boundary_iff (word : Nat) (positiveD : 0 < d) :
    (2 * ((n : Rat) * 2 ^ e / d) < boundary f word * 2 ^ f.lowestExponent ↔
        2 * scaledDividend f n d e * 2 ^ placesUp f n d e <
          boundary f word * scaledDivisor f n d e) ∧
      (2 * ((n : Rat) * 2 ^ e / d) = boundary f word * 2 ^ f.lowestExponent ↔
        2 * scaledDividend f n d e * 2 ^ placesUp f n d e =
          boundary f word * scaledDivisor f n d e) := by
  obtain ⟨left, right⟩ := scaled_eq f n d e (boundary f word)
  have divisor : (0 : Rat) < d := Nat.cast_pos.mpr positiveD
  have scale : (0 : Rat) < 2 ^ ((placeOf f n d e - e).toNat - f.lowestExponent) := zpow_pos two_pos _
  rw [← Nat.cast_lt (α := Rat), ← Nat.cast_inj (R := Rat)]
  push_cast
  rw [mul_assoc 2 (scaledDividend f n d e : Rat), left, right, ← mul_assoc 2, mul_div_assoc',
    div_lt_iff₀ divisor, div_eq_iff divisor.ne']
  exact ⟨(mul_lt_mul_iff_left₀ scale).symm, (mul_left_inj' scale.ne').symm⟩

theorem roundsToAtMost_wordOf (positiveN : 0 < n) (positiveD : 0 < d) :
    RoundsToAtMost f ((n : Rat) * 2 ^ e / d) (wordOf f n d e) := by
  have divisor := scaledDivisor_pos f n d e positiveD
  obtain ⟨bound, -⟩ := roundHalfEven_bounds (scaledDividend f n d e) _ divisor
  obtain ⟨less, same⟩ := scaled_lt_boundary_iff (f := f) (e := e) (n := n) (wordOf f n d e) positiveD
  have power : 0 < 2 ^ placesUp f n d e := Nat.two_pow_pos _
  have reaches : (2 * roundHalfEven (scaledDividend f n d e) (scaledDivisor f n d e) + 1) *
      scaledDivisor f n d e * 2 ^ placesUp f n d e ≤
        boundary f (wordOf f n d e) * scaledDivisor f n d e := by
    rw [Nat.mul_right_comm]
    apply Nat.mul_le_mul_right
    have next := le_unitsOf_wordOf_succ (f := f) (e := e) positiveN positiveD
    rw [boundary, unitsOf_wordOf positiveN positiveD]
    linarith
  rw [RoundsToAtMost, less, same, wordOf_mod_two]
  rcases bound with below | ⟨tie, even⟩
  · exact .inl (Nat.lt_of_lt_of_le (Nat.mul_lt_mul_of_pos_right below power) reaches)
  · rw [← tie] at reaches
    rcases Nat.lt_or_eq_of_le reaches with below | equal
    · exact .inl below
    · exact .inr ⟨equal, even⟩

theorem not_roundsToAtMost_of_wordOf_eq (positiveN : 0 < n) (positiveD : 0 < d) {word : Nat}
    (next : wordOf f n d e = word + 1) : ¬RoundsToAtMost f ((n : Rat) * 2 ^ e / d) word := by
  have leading := f.leadingBit_pos
  have divisorPos := scaledDivisor_pos f n d e positiveD
  obtain ⟨-, bound⟩ := roundHalfEven_bounds (scaledDividend f n d e) _ divisorPos
  obtain ⟨less, same⟩ := scaled_lt_boundary_iff (f := f) (e := e) (n := n) word positiveD
  have low := (scaledDividend_bounds f n d e positiveN positiveD).2
  have stands := unitsOf_wordOf (f := f) (e := e) positiveN positiveD
  have parity := wordOf_mod_two (f := f) (n := n) (d := d) (e := e)
  have power : 0 < 2 ^ placesUp f n d e := Nat.two_pow_pos _
  rw [RoundsToAtMost, less, same]
  rw [next] at stands parity
  unfold wordOf at next
  generalize roundHalfEven (scaledDividend f n d e) (scaledDivisor f n d e) = m at *
  generalize scaledDividend f n d e = dividend at *
  generalize scaledDivisor f n d e = divisor at *
  generalize placesUp f n d e = places at *
  have step := unitsOf_succ f word
  by_cases first : 0 < places ∧ m ≤ f.leadingBit
  · -- The quotient has the leading bit, so it is not below the number that it is rounded to.
    have reaches : m * divisor ≤ dividend :=
      Nat.le_trans (Nat.mul_le_mul_right _ first.2) (low first.1)
    have half : boundary f word < 2 * (m * 2 ^ places) := by
      have positive := stepAt_pos f word
      unfold boundary
      omega
    have above : boundary f word * divisor < 2 * dividend * 2 ^ places :=
      calc boundary f word * divisor < 2 * (m * 2 ^ places) * divisor :=
            Nat.mul_lt_mul_of_pos_right half divisorPos
        _ = 2 * (m * divisor) * 2 ^ places := by ring
        _ ≤ 2 * dividend * 2 ^ places :=
            Nat.mul_le_mul_right _ (Nat.mul_le_mul_left 2 reaches)
    omega
  · -- The number before it is one unit of the place below.
    have wide : 2 ^ places ≤ stepAt f word := by
      apply Nat.pow_le_pow_right two_pos
      rcases Nat.eq_zero_or_pos places with lowest | above
      · omega
      · have before : word = m - 1 + places * f.leadingBit := by omega
        have reaches : 0 < (m - 1) / f.leadingBit := Nat.div_pos (by omega) leading
        rw [before, Nat.add_mul_div_right _ _ leading]
        omega
    have half : boundary f word + 2 ^ places ≤ 2 * (m * 2 ^ places) := by
      unfold boundary
      omega
    have scaled : boundary f word * divisor + divisor * 2 ^ places ≤
        2 * m * divisor * 2 ^ places :=
      calc boundary f word * divisor + divisor * 2 ^ places
          = (boundary f word + 2 ^ places) * divisor := by ring
        _ ≤ 2 * (m * 2 ^ places) * divisor := Nat.mul_le_mul_right _ half
        _ = 2 * m * divisor * 2 ^ places := by ring
    have expanded : (2 * dividend + divisor) * 2 ^ places =
        2 * dividend * 2 ^ places + divisor * 2 ^ places := Nat.add_mul ..
    rcases bound with above | ⟨tie, even⟩
    · have above := Nat.mul_lt_mul_of_pos_right above power
      omega
    · rw [tie] at scaled
      omega

/-- A quotient is rounded to the number whose boundaries it lies between. -/
theorem isRoundingOf_ofQuotient (negative : Bool) (positiveD : 0 < d) :
    IsRoundingOf ((n : Rat) * 2 ^ e / d) (ofQuotient negative n d e : Binary f) := by
  rcases Nat.eq_zero_or_pos n with rfl | positiveN
  · refine ⟨Nat.min_le_right _ _, fun word _ =>
      iff_of_true (Nat.le_trans (Nat.min_le_left _ _) (Nat.zero_le _)) ?_⟩
    apply roundsToAtMost_wordValue
    simp [wordValue]
    positivity
  · rw [ofQuotient_of_pos negative positiveN]
    refine ⟨Nat.min_le_right _ _, fun word finite => ?_⟩
    change min (wordOf f n d e) f.infinity ≤ word ↔ _
    constructor
    · intro atMost
      have atMost : wordOf f n d e ≤ word := by omega
      have rounded := roundsToAtMost_wordOf (f := f) (e := e) positiveN positiveD
      rcases Nat.lt_or_eq_of_le atMost with less | equal
      · exact rounded.of_lt less
      · exact equal ▸ rounded
    · intro atMost
      by_contra greater
      obtain ⟨before, next⟩ : ∃ before, wordOf f n d e = before + 1 :=
        Nat.exists_eq_add_one_of_ne_zero (by omega)
      apply not_roundsToAtMost_of_wordOf_eq positiveN positiveD next
      rcases Nat.lt_or_eq_of_le (show word ≤ before by omega) with less | equal
      · exact atMost.of_lt less
      · exact equal ▸ atMost

end Quotient

/-! ### Roundings of sums of digits, products and quotients -/

theorem isRoundingOf_ofNat (f : BinaryFormat) (n : Nat) :
    IsRoundingOf (n : Rat) (ofNat n : Binary f) := by
  have rounded := isRoundingOf_ofQuotient (f := f) (n := n) (e := 0) false Nat.one_pos
  rw [ofNat_eq_ofQuotient]
  simpa using rounded

theorem unsigned_ofNat (f : BinaryFormat) (n : Nat) : (ofNat n : Binary f).negative = false := by
  rw [ofNat_eq_ofQuotient, negative_ofQuotient]

theorem isRoundingOf_mul (x y : Binary f) (finiteX : x.IsFinite) (finiteY : y.IsFinite) :
    IsRoundingOf (x.absolute * y.absolute) (x * y) := by
  have exact : x.absolute * y.absolute =
      ((x.significand * y.significand : Nat) : Rat) * 2 ^ (x.exponent + y.exponent) / (1 : Nat) := by
    rw [absolute, absolute, zpow_add₀ two_ne_zero]
    push_cast
    ring
  rw [mul_of_finite x y finiteX finiteY, exact]
  exact isRoundingOf_ofQuotient _ Nat.one_pos

theorem unsigned_mul {x y : Binary f} (finiteX : x.IsFinite) (finiteY : y.IsFinite)
    (unsignedX : x.negative = false) (unsignedY : y.negative = false) :
    (x * y).negative = false := by
  rw [mul_of_finite x y finiteX finiteY, negative_ofQuotient, unsignedX, unsignedY]
  rfl

theorem significand_pos (x : Binary f) (nonzero : x.magnitude ≠ 0) : 0 < x.significand := by
  have leading := f.leadingBit_pos
  unfold significand
  split <;> omega

theorem div_of_finite (x y : Binary f) (finiteX : x.IsFinite) (finiteY : y.IsFinite)
    (nonzero : y.magnitude ≠ 0) : x / y = ofQuotient (x.negative != y.negative) x.significand
      y.significand (x.exponent - y.exponent) := by
  have notZero : y.isZero = false := beq_false_of_ne nonzero
  change Binary.div x y = _
  unfold Binary.div
  simp [x.number_of_finite finiteX, y.number_of_finite finiteY, notZero]

theorem isRoundingOf_div (x y : Binary f) (finiteX : x.IsFinite) (finiteY : y.IsFinite)
    (nonzero : y.magnitude ≠ 0) : IsRoundingOf (x.absolute / y.absolute) (x / y) := by
  have exact : x.absolute / y.absolute =
      (x.significand : Rat) * 2 ^ (x.exponent - y.exponent) / y.significand := by
    rw [absolute, absolute, zpow_sub₀ two_ne_zero]
    field_simp
  rw [div_of_finite x y finiteX finiteY nonzero, exact]
  exact isRoundingOf_ofQuotient _ (y.significand_pos nonzero)

theorem unsigned_div {x y : Binary f} (finiteX : x.IsFinite) (finiteY : y.IsFinite)
    (nonzero : y.magnitude ≠ 0) (unsignedX : x.negative = false) (unsignedY : y.negative = false) :
    (x / y).negative = false := by
  rw [div_of_finite x y finiteX finiteY nonzero, negative_ofQuotient, unsignedX, unsignedY]
  rfl

theorem isRoundingOf_ofDecimal (negative : Bool) (digits : Nat) (exponent : Int) :
    IsRoundingOf (digits * (10 : Rat) ^ exponent) (ofDecimal negative digits exponent : Binary f) := by
  have power : 0 < Nat.pow 10 (-exponent).toNat := Nat.pow_pos (by decide)
  have exact : (digits * (10 : Rat) ^ exponent) =
      ((digits * Nat.pow 10 exponent.toNat : Nat) : Rat) * 2 ^ (0 : Int) /
        (Nat.pow 10 (-exponent).toNat : Nat) := by
    have split : exponent = (exponent.toNat : Int) - ((-exponent).toNat : Int) := by omega
    conv_lhs => rw [split, zpow_sub₀ (by norm_num), zpow_natCast, zpow_natCast]
    push_cast [Nat.pow_eq]
    ring
  rw [exact]
  exact isRoundingOf_ofQuotient _ power

/-! ### Reals that are rounded to a word -/

theorem absolute_eq_wordValue (x : Binary f) : x.absolute = wordValue f x.magnitude :=
  x.absolute_eq_units

/-- The real that is rounded to the word: it lies between the two boundaries of the word. -/
def RoundsTo (f : BinaryFormat) (v : Rat) (word : Nat) : Prop :=
  RoundsToAtMost f v word ∧ ∀ before, word = before + 1 → ¬RoundsToAtMost f v before

namespace IsRoundingOf

variable {v : Rat} {y : Binary f} {word : Nat}

theorem le_of_le (rounded : IsRoundingOf v y) (below : v ≤ wordValue f word) :
    y.magnitude ≤ word := by
  rcases Nat.lt_or_ge word f.infinity with finite | infinite
  · exact (rounded.2 word finite).mpr (roundsToAtMost_wordValue below)
  · exact Nat.le_trans rounded.1 infinite

theorem ge_of_ge (rounded : IsRoundingOf v y) (bounded : word ≤ f.infinity)
    (above : wordValue f word ≤ v) : word ≤ y.magnitude := by
  cases word with
  | zero => exact Nat.zero_le _
  | succ before =>
    by_contra less
    exact not_roundsToAtMost_wordValue above ((rounded.2 before bounded).mp (by omega))

theorem roundsTo (rounded : IsRoundingOf v y) (finite : y.IsFinite) : RoundsTo f v y.magnitude := by
  refine ⟨(rounded.2 _ finite).mp (Nat.le_refl _), fun before next atMost => ?_⟩
  have less := (rounded.2 before (by unfold IsFinite at finite; omega)).mpr atMost
  omega

theorem magnitude_eq (rounded : IsRoundingOf v y) (finite : word < f.infinity)
    (between : RoundsTo f v word) : y.magnitude = word := by
  apply Nat.le_antisymm ((rounded.2 word finite).mpr between.1)
  cases word with
  | zero => exact Nat.zero_le _
  | succ before =>
    by_contra less
    exact between.2 before rfl ((rounded.2 before (by omega)).mp (by omega))

end IsRoundingOf

end Binary

end Raster
