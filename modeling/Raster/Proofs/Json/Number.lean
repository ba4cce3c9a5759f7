import Raster.Proofs.Decimal.Shortest
import Raster.Proofs.Json.Written

/-!
# The digits and the power of ten of a number text

A numeral stands for the integer of all its digits times a power of ten. As long as that integer has
64 bits and the power is modest, the reader starts from the two. The text of a decimal shows the
decimal: with the same digits and power, or as an integer with zeros after the digits.
-/

namespace Raster

namespace Numeral

/-- All digits of a numeral, read as one integer. -/
def significand (n : Numeral) : Nat :=
  valueOf (n.whole ++ n.fraction.getD [])

def signedExponent (n : Numeral) : Int :=
  match n.exponent with
  | none => 0
  | some (negative, digits) => if negative then -(valueOf digits : Int) else valueOf digits

/-- The power of ten that weighs the last digit of a numeral. -/
def power (n : Numeral) : Int :=
  n.signedExponent - (n.fraction.getD []).length

/-- The digits fit into 64 bits, and neither the places after the point nor the exponent are many. -/
structure IsModest (n : Numeral) : Prop where
  fits : n.significand < UInt64.size
  places : (n.fraction.getD []).length ≤ 1000
  exponent : n.signedExponent.natAbs ≤ 1000

/-! ### Reading starts from digits and power -/

theorem le_foldl_digits (digits : List Nat) (n : Nat) :
    n ≤ digits.foldl (fun n d => n * 10 + d) n := by
  induction digits generalizing n with
  | nil => exact Nat.le_refl n
  | cons d rest ih => exact Nat.le_trans (by omega) (ih (n * 10 + d))

/-- Digits that fit are all gathered. -/
theorem gather_eq (digits : List Nat) (n : Nat)
    (fits : digits.foldl (fun n d => n * 10 + d) n < UInt64.size) :
    gather n digits = (digits.foldl (fun n d => n * 10 + d) n, []) := by
  induction digits generalizing n with
  | nil => rfl
  | cons d rest ih =>
    have next : n * 10 + d < UInt64.size := Nat.lt_of_le_of_lt (le_foldl_digits rest _) fits
    rw [gather, if_pos next]
    exact ih _ fits

theorem magnitude?_eq_scale (n : Numeral) (modest : n.IsModest) :
    n.magnitude? = scale (Binary.ofNat n.significand) n.power := by
  obtain ⟨fits, places, exponent⟩ := modest
  have all : n.significand =
      (n.fraction.getD []).foldl (fun n d => n * 10 + d) (valueOf n.whole) := by
    rw [significand, valueOf, List.foldl_append]
    rfl
  have whole : gather 0 n.whole = (valueOf n.whole, []) := by
    apply gather_eq
    exact Nat.lt_of_le_of_lt (le_foldl_digits _ _) (all ▸ fits)
  have fraction : gather (valueOf n.whole) (n.fraction.getD []) = (n.significand, []) := by
    rw [all]
    exact gather_eq _ _ (all ▸ fits)
  -- No digit is left over, so only the places after the point move the power.
  unfold magnitude?
  simp only [whole, fraction, List.length_nil, Nat.sub_zero]
  unfold power
  unfold signedExponent at *
  cases given : n.exponent with
  | none => simp
  | some parts =>
    obtain ⟨negative, digits⟩ := parts
    simp only [given] at exponent ⊢
    have small : valueOf digits ≤ 1000 := by
      split at exponent <;> omega
    have limit : Int32.maxValue.toInt = 2147483647 := by decide
    have limit' : Int32.minValue.toInt = -2147483648 := by decide
    rw [if_neg (by omega), addExponents]
    congr 1
    omega

/-! ### What a text of digits shows -/

/-- The numeral shows the decimal: by the same digits and power, or by zeros after the digits of an
integer, of which the last stands after the point. -/
structure Shows (n : Numeral) (d : Decimal) : Prop where
  modest : n.IsModest
  parts : n.significand = d.digits ∧ n.power = d.exponent ∨
    0 ≤ d.exponent ∧ n.significand = d.digits * 10 ^ (d.exponent.toNat + 1) ∧ n.power = -1

theorem Shows.toRat_eq {n : Numeral} {d : Decimal} (shown : n.Shows d) :
    (n.significand : Rat) * 10 ^ n.power = d.toRat := by
  rcases shown.parts with ⟨digits, power⟩ | ⟨integer, digits, power⟩
  · rw [digits, power, Decimal.toRat]
  · obtain ⟨k, exponent⟩ := Int.eq_ofNat_of_zero_le integer
    rw [digits, power, Decimal.toRat, exponent, Int.toNat_natCast, zpow_natCast, pow_succ]
    push_cast
    rw [zpow_neg_one]
    field_simp

/-- The significand of a numeral that is written with these characters. -/
theorem significand_eq (negative : Bool) (whole fraction : List Char)
    (exponent : Option (Bool × List Nat)) :
    significand ⟨negative, whole.map Json.digitValue, some (fraction.map Json.digitValue), exponent⟩ =
      Nat.ofDigitChars 10 (whole ++ fraction) 0 := by
  rw [significand, Option.getD_some, ← List.map_append, Json.valueOf_map_digitValue]

theorem significand_eq_whole (negative : Bool) (whole : List Char)
    (exponent : Option (Bool × List Nat)) :
    significand ⟨negative, whole.map Json.digitValue, none, exponent⟩ =
      Nat.ofDigitChars 10 whole 0 := by
  rw [significand, Option.getD_none, List.append_nil, Json.valueOf_map_digitValue]

end Numeral

namespace Json

open Numeral

/-- The sign before a number. -/
def signText (negative : Bool) : List Char :=
  if negative then ['-'] else []

/-- The body of a number's text shows the decimal, with either sign before it. -/
def ShowsDecimal (body : List Char) (d : Decimal) : Prop :=
  ∀ negative, ∃ n, SpellsNumeral (signText negative ++ body) n ∧ n.negative = negative ∧ n.Shows d

section Decimal

variable {d : Decimal}

theorem ShowsDecimal.of_point {whole fraction exponentText : List Char}
    {exponent : Option (Bool × List Nat)} (written : IsDigits whole)
    (single : ∀ more, whole = '0' :: more → more = []) (places : IsDigits fraction)
    (spelled : SpellsExponent exponentText exponent)
    (shown : ∀ negative,
      Shows ⟨negative, whole.map digitValue, some (fraction.map digitValue), exponent⟩ d) :
    ShowsDecimal (whole ++ '.' :: (fraction ++ exponentText)) d := by
  intro negative
  have numeral := SpellsNumeral.mk negative written single (.present places) spelled
  exact ⟨_, by simpa [signText] using numeral, rfl, shown negative⟩

theorem ShowsDecimal.of_whole {whole exponentText : List Char}
    {exponent : Option (Bool × List Nat)} (written : IsDigits whole)
    (single : ∀ more, whole = '0' :: more → more = [])
    (spelled : SpellsExponent exponentText exponent)
    (shown : ∀ negative, Shows ⟨negative, whole.map digitValue, none, exponent⟩ d) :
    ShowsDecimal (whole ++ exponentText) d := by
  intro negative
  have numeral := SpellsNumeral.mk negative written single .absent spelled
  exact ⟨_, by simpa [signText] using numeral, rfl, shown negative⟩

theorem isDigit_of_mem_zeros {k : Nat} : ∀ c ∈ List.replicate k '0', c.isDigit = true := by
  intro c member
  rw [List.eq_of_mem_replicate member]
  decide

/-- The digits of a positive number do not start with a zero. -/
theorem single_of_positive {n : Nat} (positive : 0 < n) {part rest more : List Char}
    (parts : part ++ rest = Nat.toDigits 10 n) (leading : part = '0' :: more) : more = [] := by
  rw [leading, List.cons_append] at parts
  exact absurd (eq_zero_of_toDigits parts.symm) (Nat.ne_of_gt positive)

theorem length_toDigits_le (few : d.digits < 10 ^ 18) :
    (Nat.toDigits 10 d.digits).length ≤ 18 :=
  (Nat.length_toDigits_le_iff (by decide) (by decide)).mpr few

/-- All digits of the decimal, with its place as the power. -/
theorem shows_of_parts {n : Numeral} (few : d.digits < 10 ^ 18)
    (digits : n.significand = d.digits) (power : n.power = d.exponent)
    (places : (n.fraction.getD []).length ≤ 1000) (exponent : n.signedExponent.natAbs ≤ 1000) :
    n.Shows d where
  modest := ⟨by rw [digits]; exact Nat.lt_trans few (by decide), places, exponent⟩
  parts := .inl ⟨digits, power⟩

/-- Zeros after the point, and then the digits. -/
theorem showsDecimal_zeros (k : Nat) (modest : k ≤ 900) (few : d.digits < 10 ^ 18)
    (place : d.exponent = -(k + (Nat.toDigits 10 d.digits).length : Nat)) :
    ShowsDecimal ('0' :: '.' :: (List.replicate k '0' ++ Nat.toDigits 10 d.digits)) d := by
  have length := length_toDigits_le few
  have written := isDigits_toDigits d.digits
  have fraction : IsDigits (List.replicate k '0' ++ Nat.toDigits 10 d.digits) :=
    ⟨List.append_ne_nil_of_right_ne_nil _ written.ne_nil, fun c member =>
      (List.mem_append.mp member).elim (isDigit_of_mem_zeros c) (written.isDigit c)⟩
  have shown := ShowsDecimal.of_point (d := d) isDigits_zero nil_of_leading_zero fraction .absent
    fun negative => shows_of_parts few ?_ ?_ ?_ ?_
  · simpa using shown
  · rw [significand_eq, Nat.ofDigitChars_append, Nat.ofDigitChars_append]
    simp [Nat.ofDigitChars_replicate_zero, Nat.ofDigitChars_cons, Nat.ofDigitChars_ten_toDigits]
  · simp [Numeral.power, signedExponent, place]
  · simp
    omega
  · simp [signedExponent]

/-- The digits, zeros up to the point, and one zero after it. -/
theorem showsDecimal_integer (positive : 0 < d.digits) (k : Nat) (place : d.exponent = k)
    (size : (Nat.toDigits 10 d.digits).length + k ≤ 16) :
    ShowsDecimal (Nat.toDigits 10 d.digits ++ List.replicate k '0' ++ ['.', '0']) d := by
  have written := isDigits_toDigits d.digits
  have whole : IsDigits (Nat.toDigits 10 d.digits ++ List.replicate k '0') :=
    ⟨List.append_ne_nil_of_left_ne_nil written.ne_nil _, fun c member =>
      (List.mem_append.mp member).elim (written.isDigit c) (isDigit_of_mem_zeros c)⟩
  have single (more : List Char)
      (leading : Nat.toDigits 10 d.digits ++ List.replicate k '0' = '0' :: more) : more = [] := by
    obtain ⟨c, rest, digits, -⟩ := written.exists_cons
    rw [digits, List.cons_append] at leading
    obtain ⟨rfl, -⟩ := List.cons.inj leading
    exact absurd (eq_zero_of_toDigits digits) (Nat.ne_of_gt positive)
  have digits (negative : Bool) : significand ⟨negative,
      (Nat.toDigits 10 d.digits ++ List.replicate k '0').map digitValue,
      some (['0'].map digitValue), none⟩ = d.digits * 10 ^ (k + 1) := by
    rw [significand_eq, Nat.ofDigitChars_append, Nat.ofDigitChars_append,
      Nat.ofDigitChars_ten_toDigits, Nat.ofDigitChars_replicate_zero]
    simp only [Nat.ofDigitChars_cons, Nat.ofDigitChars_nil]
    rw [Nat.pow_succ]
    change 10 * (10 ^ k * d.digits) + 0 = _
    ring
  -- The zero after the point counts as a digit too, and even so there are at most 17.
  have fits : d.digits * 10 ^ (k + 1) < UInt64.size :=
    calc d.digits * 10 ^ (k + 1)
        < 10 ^ (Nat.toDigits 10 d.digits).length * 10 ^ (k + 1) :=
          Nat.mul_lt_mul_of_pos_right ((Nat.length_toDigits_le_iff (by decide)
            Nat.length_toDigits_pos).mp (Nat.le_refl _)) (Nat.pow_pos (by decide))
      _ = 10 ^ ((Nat.toDigits 10 d.digits).length + (k + 1)) := (Nat.pow_add ..).symm
      _ ≤ 10 ^ 17 := Nat.pow_le_pow_right (by decide) (by omega)
      _ ≤ UInt64.size := by decide
  have shown := ShowsDecimal.of_point (d := d) whole single isDigits_zero .absent fun negative =>
    ⟨⟨?_, ?_, ?_⟩, .inr ⟨?_, ?_, ?_⟩⟩
  · simpa using shown
  · rw [digits]
    exact fits
  · simp
  · simp [signedExponent]
  · omega
  · rw [digits, place, Int.toNat_natCast]
  · simp [Numeral.power, signedExponent]

/-- The point among the digits. -/
theorem showsDecimal_point (positive : 0 < d.digits) (few : d.digits < 10 ^ 18) (k : Nat)
    (atLeastOne : 0 < k) (inside : k < (Nat.toDigits 10 d.digits).length)
    (place : d.exponent = k - (Nat.toDigits 10 d.digits).length) :
    ShowsDecimal ((Nat.toDigits 10 d.digits).take k ++ '.' :: (Nat.toDigits 10 d.digits).drop k) d := by
  have length := length_toDigits_le few
  have written := isDigits_toDigits d.digits
  have whole : IsDigits ((Nat.toDigits 10 d.digits).take k) :=
    ⟨fun empty => by
      rw [List.take_eq_nil_iff] at empty
      exact empty.elim (Nat.ne_of_gt atLeastOne) written.ne_nil,
      fun c member => written.isDigit c (List.mem_of_mem_take member)⟩
  have fraction : IsDigits ((Nat.toDigits 10 d.digits).drop k) :=
    ⟨fun empty => by
      rw [List.drop_eq_nil_iff] at empty
      omega, fun c member => written.isDigit c (List.mem_of_mem_drop member)⟩
  have shown := ShowsDecimal.of_point (d := d) whole
    (fun more => single_of_positive positive (List.take_append_drop k _)) fraction .absent
    fun negative => shows_of_parts few ?_ ?_ ?_ ?_
  · simpa using shown
  · rw [significand_eq, List.take_append_drop, Nat.ofDigitChars_ten_toDigits]
  · simp [Numeral.power, signedExponent, place]
    omega
  · simp
    omega
  · simp [signedExponent]

/-- An exponent as it is written, with a sign in any case. -/
theorem spellsExponent_of_int (i : Int) :
    SpellsExponent ('e' :: ((if i < 0 then ['-'] else ['+']) ++ Nat.toDigits 10 i.natAbs))
      (some (decide (i < 0), (Nat.toDigits 10 i.natAbs).map digitValue)) := by
  refine .present (.inl rfl) ?_ (isDigits_toDigits _)
  split
  next below =>
    rw [decide_eq_true below]
    exact .minus
  next above =>
    rw [decide_eq_false above]
    exact .plus

theorem signedExponent_eq (negative : Bool) (whole : List Nat) (fraction : Option (List Nat))
    (i : Int) : signedExponent ⟨negative, whole, fraction,
      some (decide (i < 0), (Nat.toDigits 10 i.natAbs).map digitValue)⟩ = i := by
  simp only [signedExponent, valueOf_map_digitValue, Nat.ofDigitChars_ten_toDigits]
  split
  next below =>
    rw [decide_eq_true_eq] at below
    omega
  next above =>
    rw [decide_eq_true_eq] at above
    omega

/-- The point after the first digit, if there are more, and an exponent. -/
theorem showsDecimal_scientific (few : d.digits < 10 ^ 18)
    (modest : d.exponent.natAbs ≤ 900) :
    ShowsDecimal (style.scientific (Nat.toDigits 10 d.digits)
      (d.exponent + (Nat.toDigits 10 d.digits).length - 1)) d := by
  have length := length_toDigits_le few
  have value := Nat.ofDigitChars_ten_toDigits (n := d.digits)
  obtain ⟨nonempty, each⟩ := isDigits_toDigits d.digits
  have spelled :=
    spellsExponent_of_int (d.exponent + (Nat.toDigits 10 d.digits).length - 1)
  unfold Style.scientific
  generalize Nat.toDigits 10 d.digits = digits at *
  generalize leads : d.exponent + digits.length - 1 = leading at *
  cases digits with
  | nil => exact absurd rfl nonempty
  | cons c more =>
    have whole : IsDigits [c] :=
      ⟨List.cons_ne_nil _ _, List.forall_mem_singleton.mpr (each c List.mem_cons_self)⟩
    rcases eq_or_ne more [] with rfl | several
    · have shown := ShowsDecimal.of_whole (d := d) whole nil_of_leading_zero spelled
        fun negative => shows_of_parts few ?_ ?_ ?_ ?_
      · simpa [style] using shown
      · rw [significand_eq_whole, value]
      · rw [Numeral.power, signedExponent_eq]
        simp at leads ⊢
        omega
      · simp
      · rw [signedExponent_eq]
        simp at leads
        omega
    · have fraction : IsDigits more := ⟨several, fun b member => each b (List.mem_cons_of_mem c member)⟩
      have shown := ShowsDecimal.of_point (d := d) whole nil_of_leading_zero fraction spelled
        fun negative => shows_of_parts few ?_ ?_ ?_ ?_
      · have longer : ¬more.length + 1 ≤ 1 := by
          have nonempty := List.length_pos_iff.mpr several
          omega
        simpa [style, longer] using shown
      · rw [significand_eq, List.singleton_append, value]
      · rw [Numeral.power, signedExponent_eq]
        simp at leads ⊢
        omega
      · simp at length ⊢
        omega
      · rw [signedExponent_eq]
        simp at leads length
        omega

/-- In whichever form a decimal is written, its text shows it. -/
theorem showsDecimal_renderDecimal (positive : 0 < d.digits) (few : d.digits < 10 ^ 18)
    (modest : d.exponent.natAbs ≤ 900) : ShowsDecimal (style.renderDecimal d) d := by
  have length := Nat.length_toDigits_pos (b := 10) (n := d.digits)
  unfold Style.renderDecimal
  by_cases plain : style.isPlainAt (d.exponent + (Nat.toDigits 10 d.digits).length - 1) = true
  · obtain ⟨low, high⟩ := of_decide_eq_true plain
    rw [if_pos plain, Int.sub_add_cancel, Style.positional]
    split
    next before =>
      apply showsDecimal_zeros _ (by omega) few
      omega
    next =>
      split
      next after =>
        apply showsDecimal_integer positive
        · omega
        · omega
      next =>
        apply showsDecimal_point positive few
        · omega
        · omega
        · omega
  · rw [if_neg plain]
    exact showsDecimal_scientific few modest

end Decimal

/-! ### The text of a number -/

/-- The decimal that is written for a finite number, without its sign. -/
def writtenDecimal (x : Double) : Decimal :=
  if x.magnitude = 0 then ⟨0, 0⟩ else x.shortestDecimal style.tie

theorem writtenDecimal_zero (x : Double) (zero : x.magnitude = 0) : writtenDecimal x = ⟨0, 0⟩ :=
  if_pos zero

theorem writtenDecimal_of_ne_zero (x : Double) (nonzero : x.magnitude ≠ 0) :
    writtenDecimal x = x.shortestDecimal style.tie :=
  if_neg nonzero

/-- The decimal that is written is rounded to the number. -/
theorem roundsTo_writtenDecimal (x : Double) :
    Binary.RoundsTo .double (writtenDecimal x).toRat x.magnitude := by
  unfold writtenDecimal
  split
  next zero =>
    rw [zero]
    refine ⟨Binary.roundsToAtMost_wordValue ?_, fun before next => absurd next (by omega)⟩
    simp [Decimal.toRat, Binary.wordValue, Binary.unitsOf_zero]
  next nonzero => exact (x.readsAs_iff _ nonzero).mp (x.shortestDecimal_found style.tie nonzero).1

theorem showsDecimal_zero : ShowsDecimal ['0', '.', '0'] ⟨0, 0⟩ := by
  refine ShowsDecimal.of_point isDigits_zero nil_of_leading_zero isDigits_zero .absent ?_
  intro negative
  cases negative <;>
    exact ⟨⟨by decide, by decide, by decide⟩, .inr ⟨by decide, by decide, by decide⟩⟩

/-- The text of a finite number spells a numeral that shows its decimal, with its sign. -/
theorem exists_spellsNumeral_render (x : Double) (finite : x.IsFinite) :
    ∃ n, SpellsNumeral (style.render x).toList n ∧ n.negative = x.negative ∧
      n.Shows (writtenDecimal x) := by
  obtain ⟨number, bounded⟩ := x.number_of_finite finite
  have body : ShowsDecimal
      (if x.isZero then ['0', '.', '0'] else style.renderDecimal (x.shortestDecimal style.tie))
      (writtenDecimal x) := by
    unfold writtenDecimal
    by_cases zero : x.magnitude = 0
    · have isZero : x.isZero = true := beq_iff_eq.mpr zero
      rw [if_pos zero, if_pos isZero]
      exact showsDecimal_zero
    · have notZero : ¬x.isZero = true := fun isZero => zero (beq_iff_eq.mp isZero)
      obtain ⟨positive, few⟩ := x.digits_shortestDecimal style.tie zero
      obtain ⟨low, high⟩ := Binary.exponent_shortestDecimal style.tie x zero finite
      rw [if_neg zero, if_neg notZero]
      exact showsDecimal_renderDecimal positive (Nat.lt_of_le_of_lt few (by decide)) (by omega)
  obtain ⟨n, spelled, sign, shown⟩ := body x.negative
  have laidOut : (style.render x).toList = signText x.negative ++
      (if x.isZero then ['0', '.', '0'] else style.renderDecimal (x.shortestDecimal style.tie)) := by
    unfold Style.render
    rw [number, bounded, if_neg Bool.false_ne_true, if_neg Bool.false_ne_true, String.toList_ofList]
    cases x.negative <;> rfl
  exact ⟨n, laidOut ▸ spelled, sign, shown⟩

end Json

end Raster
