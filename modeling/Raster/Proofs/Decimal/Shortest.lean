import Raster.Proofs.Decimal.Interval

/-!
# The search for the shortest decimal

The search starts at a place that is near the leading digit of the number and succeeds before its
places run out. The decimal that it finds reads back as the number, and because no coarser place
had one, its digits fit into a 64-bit integer.
-/

namespace Raster

/-! ### Powers of ten and of two -/

/-- A power of `b` that lies between two powers of `a` keeps doing so when all are raised to the same
power. -/
theorem zpow_between {a b : Rat} {M N : Nat} (base : 1 ≤ a) (low : a ^ N ≤ b ^ M)
    (high : b ^ M ≤ a ^ (N + 1)) (l : Int) (small : l.natAbs ≤ N) :
    a ^ (N * l - N) ≤ (b ^ M) ^ l ∧ (b ^ M) ^ l ≤ a ^ (N * l + N) := by
  have positive : 0 < a := by linarith
  have lowPos : 0 < a ^ N := pow_pos positive N
  have middlePos : 0 < b ^ M := by linarith
  obtain ⟨k, signed⟩ := l.eq_nat_or_neg
  have bound : (k : Int) ≤ N := by omega
  rcases signed with rfl | rfl
  · rw [zpow_natCast]
    constructor
    · calc a ^ ((N : Int) * k - N) ≤ a ^ ((N * k : Nat) : Int) :=
            zpow_le_zpow_right₀ base (by push_cast; omega)
        _ = (a ^ N) ^ k := by rw [zpow_natCast, pow_mul]
        _ ≤ (b ^ M) ^ k := pow_le_pow_left₀ lowPos.le low k
    · calc (b ^ M) ^ k ≤ (a ^ (N + 1)) ^ k := pow_le_pow_left₀ middlePos.le high k
        _ = a ^ (((N + 1) * k : Nat) : Int) := by rw [zpow_natCast, pow_mul]
        _ ≤ a ^ ((N : Int) * k + N) := zpow_le_zpow_right₀ base (by push_cast; linarith)
  · -- Under a negative power the two bounds change places.
    rw [zpow_neg, zpow_natCast]
    constructor
    · calc a ^ ((N : Int) * -k - N) ≤ a ^ (-((N + 1) * k : Nat) : Int) :=
            zpow_le_zpow_right₀ base (by push_cast; linarith)
        _ = ((a ^ (N + 1)) ^ k)⁻¹ := by rw [zpow_neg, zpow_natCast, pow_mul]
        _ ≤ ((b ^ M) ^ k)⁻¹ :=
            inv_anti₀ (pow_pos middlePos k) (pow_le_pow_left₀ middlePos.le high k)
    · calc ((b ^ M) ^ k)⁻¹ ≤ ((a ^ N) ^ k)⁻¹ :=
            inv_anti₀ (pow_pos lowPos k) (pow_le_pow_left₀ lowPos.le low k)
        _ = a ^ (-(N * k : Nat) : Int) := by rw [zpow_neg, zpow_natCast, pow_mul]
        _ ≤ a ^ ((N : Int) * -k + N) := zpow_le_zpow_right₀ base (by push_cast; linarith)

/-- As `zpow_between`, for the integer part of the exponent. -/
theorem zpow_div_between {a b : Rat} {M N : Nat} (positive : 0 < N) (base : 1 ≤ a) (other : 1 ≤ b)
    (low : a ^ N ≤ b ^ M) (high : b ^ M ≤ a ^ (N + 1)) (l : Int) (small : l.natAbs ≤ N) :
    b ^ (l * M / N) ≤ a ^ (l + 1) ∧ a ^ (l - 1) ≤ b ^ (l * M / N + 1) := by
  have divisor : (0 : Int) < N := by omega
  have floor := Int.ediv_mul_le (l * M) divisor.ne'
  have ceiling := Int.lt_ediv_add_one_mul_self (l * M) divisor
  obtain ⟨lower, upper⟩ := zpow_between base low high l small
  have power : (b ^ M) ^ l = b ^ (l * M) := by
    rw [mul_comm, zpow_mul, zpow_natCast]
  have nonnegA (k : Int) : 0 ≤ a ^ k := zpow_nonneg (by linarith) k
  have nonnegB (k : Int) : 0 ≤ b ^ k := zpow_nonneg (by linarith) k
  rw [power] at lower upper
  generalize l * M / N = t at *
  constructor
  · rw [← pow_le_pow_iff_left₀ (nonnegB _) (nonnegA _) (Nat.ne_of_gt positive)]
    calc (b ^ t) ^ N = b ^ (t * N) := by rw [zpow_mul, zpow_natCast]
      _ ≤ b ^ (l * M) := zpow_le_zpow_right₀ other floor
      _ ≤ a ^ (N * l + N : Int) := upper
      _ = (a ^ (l + 1)) ^ N := by
        rw [← zpow_natCast (a ^ (l + 1)), ← zpow_mul]
        congr 1
        ring
  · rw [← pow_le_pow_iff_left₀ (nonnegA _) (nonnegB _) (Nat.ne_of_gt positive)]
    calc (a ^ (l - 1)) ^ N = a ^ (N * l - N : Int) := by
          rw [← zpow_natCast (a ^ (l - 1)), ← zpow_mul]
          congr 1
          ring
      _ ≤ b ^ (l * M) := lower
      _ ≤ b ^ ((t + 1) * N) := zpow_le_zpow_right₀ other ceiling.le
      _ = (b ^ (t + 1)) ^ N := by rw [zpow_mul, zpow_natCast]

/-- The quotient 30103 / 100000 is just above the logarithm of two to base ten. -/
theorem log_two_approximation :
    2 ^ 100000 ≤ 10 ^ 30103 ∧ 10 ^ 30103 ≤ 2 ^ (100000 + 1) := by
  decide +kernel

theorem ten_zpow_between (l : Int) (small : l.natAbs ≤ 100000) :
    (10 : Rat) ^ (l * 30103 / 100000) ≤ 2 ^ (l + 1) ∧
      (2 : Rat) ^ (l - 1) ≤ 10 ^ (l * 30103 / 100000 + 1) := by
  refine zpow_div_between (M := 30103) (N := 100000) (by decide) one_le_two (by norm_num) ?_ ?_ l small
  · exact_mod_cast log_two_approximation.1
  · exact_mod_cast log_two_approximation.2

namespace Binary

variable {f : BinaryFormat}

theorem absolute_bounds (x : Binary f) (nonzero : x.magnitude ≠ 0) :
    (2 : Rat) ^ (x.significand.log2 + x.exponent) ≤ x.absolute ∧
      x.absolute < 2 ^ (x.significand.log2 + x.exponent + 1) := by
  have positive := x.significand_pos nonzero
  have low : ((2 ^ x.significand.log2 : Nat) : Rat) ≤ x.significand :=
    Nat.cast_le.mpr (Nat.log2_self_le positive.ne')
  have high : (x.significand : Rat) < ((2 ^ (x.significand.log2 + 1) : Nat) : Rat) :=
    Nat.cast_lt.mpr Nat.lt_log2_self
  have unit : (0 : Rat) < 2 ^ x.exponent := zpow_pos two_pos _
  push_cast at low high
  constructor
  · rw [zpow_add₀ two_ne_zero, zpow_natCast]
    exact mul_le_mul_of_nonneg_right low unit.le
  · rw [add_right_comm, zpow_add₀ two_ne_zero, ← Nat.cast_succ, zpow_natCast]
    exact mul_lt_mul_of_pos_right high unit

theorem significand_lt (x : Binary f) : x.significand < 2 * f.leadingBit := by
  have inside := Nat.mod_lt x.magnitude f.leadingBit_pos
  unfold significand fraction
  split <;> omega

theorem natAbs_log2_le (x : Binary f) (nonzero : x.magnitude ≠ 0) :
    (x.significand.log2 + x.exponent + 1 : Int).natAbs ≤ 100000 := by
  have leading := f.leadingBit_pos
  have places : x.magnitude / f.leadingBit < 4096 := by
    rw [Nat.div_lt_iff_lt_mul leading]
    exact Nat.lt_trans x.magnitude_lt (by cases f <;> decide)
  have bits : x.significand.log2 < 64 := by
    have small := x.significand_lt
    rw [Nat.log2_lt (x.significand_pos nonzero).ne']
    exact Nat.lt_trans small (by cases f <;> decide)
  have lowest : -2000 ≤ f.lowestExponent ∧ f.lowestExponent ≤ 0 := by cases f <;> decide
  rw [exponent]
  omega

/-- The first place of the search is near the leading digit of the number. -/
theorem topPlace_bounds (x : Binary f) (nonzero : x.magnitude ≠ 0) :
    (10 : Rat) ^ x.topPlace ≤ 40 * x.absolute ∧ x.absolute < 2 * 10 ^ x.topPlace := by
  obtain ⟨low, high⟩ := x.absolute_bounds nonzero
  obtain ⟨upper, lower⟩ := ten_zpow_between _ (x.natAbs_log2_le nonzero)
  rw [topPlace]
  generalize (x.significand.log2 + x.exponent : Int) = l at *
  rw [zpow_add_one₀ two_ne_zero (l + 1), zpow_add_one₀ two_ne_zero] at upper
  rw [add_sub_cancel_right] at lower
  rw [zpow_add_one₀ two_ne_zero] at high
  constructor
  · rw [zpow_add_one₀ (by norm_num)]
    linarith
  · linarith

/-! ### The search -/

/-- The first success in a range, with what comes before it. -/
theorem exists_findSome?_range {α : Type} (g : Nat → Option α) (n : Nat)
    (succeeds : ∃ i < n, ∃ a, g i = some a) :
    ∃ i < n, ∃ a, g i = some a ∧ (List.range n).findSome? g = some a ∧ ∀ j < i, g j = none := by
  -- A range grows at its end, and what is found earlier comes first.
  induction n with
  | zero =>
    obtain ⟨i, outside, -⟩ := succeeds
    exact absurd outside (Nat.not_lt_zero i)
  | succ n ih =>
    rw [List.range_succ, List.findSome?_append]
    by_cases earlier : ∃ i < n, ∃ a, g i = some a
    · obtain ⟨i, inside, a, found, searched, first⟩ := ih earlier
      exact ⟨i, Nat.lt_succ_of_lt inside, a, found, by rw [searched, Option.some_or], first⟩
    · have fails (j : Nat) (inside : j < n) : g j = none :=
        Option.eq_none_iff_forall_ne_some.mpr fun a found => earlier ⟨j, inside, a, found⟩
      have nothing : (List.range n).findSome? g = none :=
        List.findSome?_eq_none_iff.mpr fun j member => fails j (List.mem_range.mp member)
      obtain ⟨i, inside, a, found⟩ := succeeds
      obtain rfl : i = n := by
        by_contra other
        exact earlier ⟨i, by omega, a, found⟩
      refine ⟨i, inside, a, found, ?_, fails⟩
      rw [nothing, Option.none_or, List.findSome?_singleton, found]

/-- The last place of the search is fine enough. -/
theorem lastPlace_fine (x : Binary f) (nonzero : x.magnitude ≠ 0) :
    2 * (10 : Rat) ^ (x.topPlace - 19) < stepAt f x.magnitude * 2 ^ f.lowestExponent := by
  obtain ⟨top, -⟩ := x.topPlace_bounds nonzero
  have unit : (0 : Rat) < stepAt f x.magnitude * 2 ^ f.lowestExponent :=
    mul_pos (Nat.cast_pos.mpr (stepAt_pos f _)) (zpow_pos two_pos _)
  have size : (x.significand : Rat) < 2 * f.leadingBit := by
    have small : x.significand < 2 * f.leadingBit := x.significand_lt
    exact_mod_cast small
  have leading : (160 * f.leadingBit : Rat) < 10 ^ 19 := by
    have small : 160 * f.leadingBit < 10 ^ 19 := by cases f <;> decide
    exact_mod_cast small
  have value : x.absolute = x.significand * (stepAt f x.magnitude * 2 ^ f.lowestExponent) := by
    rw [absolute, zpow_exponent]
  rw [zpow_sub₀ (by norm_num), mul_div_assoc', div_lt_iff₀ (by positivity)]
  calc 2 * (10 : Rat) ^ x.topPlace ≤ 80 * x.absolute := by linarith
    _ = 80 * x.significand * (stepAt f x.magnitude * 2 ^ f.lowestExponent) := by
      rw [value]
      ring
    _ ≤ 160 * f.leadingBit * (stepAt f x.magnitude * 2 ^ f.lowestExponent) :=
      mul_le_mul_of_nonneg_right (by linarith) unit.le
    _ < 10 ^ 19 * (stepAt f x.magnitude * 2 ^ f.lowestExponent) :=
      mul_lt_mul_of_pos_right leading unit
    _ = stepAt f x.magnitude * 2 ^ f.lowestExponent * 10 ^ (19 : Int) := by
      rw [mul_comm]
      norm_cast

/-- What the search for a shortest decimal finds: a decimal that reads back as the number. It is at
the first place, or the next coarser place has half a step or more. -/
theorem shortestDecimal_found (tie : Decimal.Tie) (x : Binary f) (nonzero : x.magnitude ≠ 0) :
    x.readsAs (x.shortestDecimal tie) = true ∧
      ((x.shortestDecimal tie).exponent = x.topPlace ∨
        stepAt f x.magnitude * 2 ^ f.lowestExponent ≤
          20 * (10 : Rat) ^ (x.shortestDecimal tie).exponent) := by
  obtain ⟨i, -, d, found, searched, first⟩ :=
    exists_findSome?_range (fun i => x.decimalAt? tie (x.topPlace - (i : Nat))) 20
      ⟨19, by decide, x.exists_decimalAt? tie nonzero _ (x.lastPlace_fine nonzero)⟩
  have shortest : x.shortestDecimal tie = d := by
    rw [shortestDecimal, List.findSome?_map]
    exact congrArg (Option.getD · x.exactDecimal) searched
  obtain ⟨reads, place⟩ := decimalAt?_eq_some found
  rw [shortest, place]
  refine ⟨reads, ?_⟩
  rcases Nat.eq_zero_or_pos i with rfl | later
  · exact .inl (by simp)
  · right
    by_contra coarser
    -- Otherwise the place before would have been fine enough, and the search had ended there.
    obtain ⟨j, rfl⟩ := Nat.exists_eq_add_one_of_ne_zero (Nat.ne_of_gt later)
    have before : x.topPlace - (j : Int) = x.topPlace - ((j + 1 : Nat) : Int) + 1 := by
      push_cast
      ring
    have fine : 2 * (10 : Rat) ^ (x.topPlace - (j : Int)) <
        stepAt f x.magnitude * 2 ^ f.lowestExponent := by
      rw [before, zpow_add_one₀ (by norm_num)]
      linarith
    obtain ⟨_, success⟩ := x.exists_decimalAt? tie nonzero _ fine
    rw [first j (Nat.lt_succ_self j)] at success
    cases success

/-! ### The size of what is found -/

theorem RoundsTo.pos {v : Rat} {word : Nat} (rounds : RoundsTo f v word) (nonzero : word ≠ 0) :
    0 < v := by
  obtain ⟨before, next⟩ := Nat.exists_eq_add_one_of_ne_zero nonzero
  by_contra negative
  apply rounds.2 before next
  apply roundsToAtMost_wordValue
  have nonneg : 0 ≤ wordValue f before :=
    mul_nonneg (Nat.cast_nonneg _) (zpow_nonneg zero_le_two _)
  linarith

theorem stepAt_le_unitsOf (x : Binary f) (nonzero : x.magnitude ≠ 0) :
    stepAt f x.magnitude ≤ unitsOf f x.magnitude := by
  rw [x.unitsOf_magnitude]
  exact Nat.le_mul_of_pos_left _ (x.significand_pos nonzero)

/-- The digits of a shortest decimal are positive and fit into a few bits more than a significand. -/
theorem digits_shortestDecimal (tie : Decimal.Tie) (x : Binary f) (nonzero : x.magnitude ≠ 0) :
    0 < (x.shortestDecimal tie).digits ∧
      (x.shortestDecimal tie).digits ≤ 40 * f.leadingBit := by
  obtain ⟨reads, place⟩ := x.shortestDecimal_found tie nonzero
  obtain ⟨-, top⟩ := x.topPlace_bounds nonzero
  generalize x.shortestDecimal tie = d at *
  have rounds := (x.readsAs_iff d nonzero).mp reads
  have upper := rounds.bounds.1
  have positive := rounds.pos nonzero
  have unit : (0 : Rat) < 2 ^ f.lowestExponent := zpow_pos two_pos _
  have power : (0 : Rat) < 10 ^ d.exponent := zpow_pos (by norm_num) _
  constructor
  · apply Nat.pos_of_ne_zero
    intro noDigits
    rw [Decimal.toRat, noDigits, Nat.cast_zero, zero_mul] at positive
    exact absurd positive (lt_irrefl _)
  · rw [← Nat.cast_le (α := Rat)]
    apply le_of_mul_le_mul_right _ power
    push_cast
    rw [← Decimal.toRat]
    rcases place with first | coarser
    · -- At the first place there are hardly any digits.
      have step : (stepAt f x.magnitude : Rat) ≤ unitsOf f x.magnitude :=
        Nat.cast_le.mpr (x.stepAt_le_unitsOf nonzero)
      have scaled := mul_le_mul_of_nonneg_right step unit.le
      have leading : (1 : Rat) ≤ f.leadingBit := Nat.one_le_cast.mpr f.leadingBit_pos
      have room := mul_le_mul_of_nonneg_right leading power.le
      rw [absolute_eq_units, ← first] at top
      linarith
    · -- A number has so many steps, and twenty units of the place are no less than one of them.
      have size : (unitsOf f x.magnitude + stepAt f x.magnitude : Rat) ≤
          2 * f.leadingBit * stepAt f x.magnitude := by
        exact_mod_cast unitsOf_succ f x.magnitude ▸ unitsOf_succ_le f x.magnitude
      have scaled := mul_le_mul_of_nonneg_right size unit.le
      have leading : (0 : Rat) ≤ 2 * f.leadingBit := by positivity
      have widened := mul_le_mul_of_nonneg_left coarser leading
      have step : (0 : Rat) ≤ stepAt f x.magnitude * 2 ^ f.lowestExponent := by positivity
      linarith

theorem zpow_lowestExponent_double :
    (2 : Rat) ^ BinaryFormat.double.lowestExponent = (2 ^ 1074)⁻¹ := by
  rw [← zpow_natCast, ← zpow_neg]
  rfl

/-- All doubles lie between these powers of ten, with some room. -/
theorem double_range :
    20 * (10 : Rat) ^ (-325 : Int) < 2 ^ BinaryFormat.double.lowestExponent ∧
      wordValue .double BinaryFormat.double.infinity < (10 : Rat) ^ (309 : Int) := by
  have least : 20 * 2 ^ 1074 < 10 ^ 325 := by decide +kernel
  have most : unitsOf .double BinaryFormat.double.infinity < 10 ^ 309 * 2 ^ 1074 := by
    decide +kernel
  have leastRat : (20 * 2 ^ 1074 : Rat) < 10 ^ 325 := by exact_mod_cast least
  have mostRat : (unitsOf .double BinaryFormat.double.infinity : Rat) < 10 ^ 309 * 2 ^ 1074 := by
    exact_mod_cast most
  have small : (10 : Rat) ^ (-325 : Int) = (10 ^ 325)⁻¹ := by
    rw [← zpow_natCast, ← zpow_neg]
    rfl
  rw [wordValue, zpow_lowestExponent_double, small, ← div_eq_mul_inv, ← div_eq_mul_inv, ← one_div,
    div_lt_div_iff₀ (by positivity) (by positivity), div_lt_iff₀ (by positivity), one_mul]
  exact ⟨leastRat, by exact_mod_cast mostRat⟩

theorem exponent_shortestDecimal (tie : Decimal.Tie) (x : Double) (nonzero : x.magnitude ≠ 0)
    (finite : x.IsFinite) :
    -324 ≤ (x.shortestDecimal tie).exponent ∧ (x.shortestDecimal tie).exponent ≤ 308 := by
  obtain ⟨reads, place⟩ := x.shortestDecimal_found tie nonzero
  obtain ⟨digits, -⟩ := x.digits_shortestDecimal tie nonzero
  obtain ⟨-, top⟩ := x.topPlace_bounds nonzero
  obtain ⟨least, most⟩ := double_range
  generalize x.shortestDecimal tie = d at *
  have rounds := (x.readsAs_iff d nonzero).mp reads
  have unit : (0 : Rat) < 2 ^ BinaryFormat.double.lowestExponent := zpow_pos two_pos _
  have power : (0 : Rat) < 10 ^ d.exponent := zpow_pos (by norm_num) _
  constructor
  · have coarse : (2 : Rat) ^ BinaryFormat.double.lowestExponent ≤ 20 * 10 ^ d.exponent := by
      rcases place with first | coarser
      · have one : (1 : Rat) ≤ unitsOf .double x.magnitude :=
          Nat.one_le_cast.mpr (Nat.lt_of_lt_of_le (stepAt_pos _ _) (x.stepAt_le_unitsOf nonzero))
        have scaled := mul_le_mul_of_nonneg_right one unit.le
        rw [absolute_eq_units, ← first] at top
        linarith
      · have one : (1 : Rat) ≤ stepAt .double x.magnitude := Nat.one_le_cast.mpr (stepAt_pos _ _)
        have scaled := mul_le_mul_of_nonneg_right one unit.le
        linarith
    have greater : (10 : Rat) ^ (-325 : Int) < 10 ^ d.exponent := by linarith
    have order := (zpow_lt_zpow_iff_right₀ (by norm_num)).mp greater
    omega
  · have below : d.toRat ≤ wordValue .double BinaryFormat.double.infinity := by
      by_contra above
      have next : ¬RoundsToAtMost .double d.toRat x.magnitude := by
        apply not_roundsToAtMost_wordValue
        apply le_trans _ (le_of_not_ge above)
        exact mul_le_mul_of_nonneg_right
          (Nat.cast_le.mpr ((unitsOf_strictMono _).monotone finite)) unit.le
      exact next rounds.1
    have atLeast : (10 : Rat) ^ d.exponent ≤ d.toRat :=
      le_mul_of_one_le_left power.le (Nat.one_le_cast.mpr digits)
    have less : (10 : Rat) ^ d.exponent < 10 ^ (309 : Int) := by linarith
    have order := (zpow_lt_zpow_iff_right₀ (by norm_num)).mp less
    omega

end Binary

end Raster
