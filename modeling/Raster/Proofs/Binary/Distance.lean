import Mathlib.Tactic.Positivity
import Raster.Proofs.Binary.Nearest

/-!
# Distances of roundings

A rounding is at most half a step away from what is rounded. So a result of a few roundings is only
a few steps away from the number that the exact result would be rounded to.
-/

namespace Raster.Binary

variable {f : BinaryFormat}

/-- What is rounded to a word is at most half a step above or below it. -/
theorem RoundsTo.bounds {v : Rat} {word : Nat} (rounds : RoundsTo f v word) :
    2 * v ≤ (2 * unitsOf f word + stepAt f word) * 2 ^ f.lowestExponent ∧
      ∀ before, word = before + 1 →
        (2 * unitsOf f word - stepAt f before) * 2 ^ f.lowestExponent ≤ 2 * v := by
  obtain ⟨below, above⟩ := rounds
  constructor
  · have upper : 2 * v ≤ boundary f word * 2 ^ f.lowestExponent := by
      rcases below with less | ⟨same, -⟩
      · exact less.le
      · exact same.le
    rw [boundary, unitsOf_succ] at upper
    push_cast at upper
    linarith
  · rintro before rfl
    have lower : (boundary f before : Rat) * 2 ^ f.lowestExponent ≤ 2 * v :=
      not_lt.mp fun less => above before rfl (.inl less)
    have next := unitsOf_succ f before
    rw [boundary, next] at lower
    rw [next]
    push_cast at lower ⊢
    linarith

/-- The error of a rounding is half a step, which is a fixed part of the real, or half a unit. -/
theorem RoundsTo.abs_sub_le {v : Rat} {word : Nat} (rounds : RoundsTo f v word) (nonneg : 0 ≤ v) :
    |wordValue f word - v| ≤ v / (2 * f.leadingBit) + 2 ^ f.lowestExponent / 2 := by
  have leading : (0 : Rat) < f.leadingBit := Nat.cast_pos.mpr f.leadingBit_pos
  have unit : (0 : Rat) < 2 ^ f.lowestExponent := zpow_pos two_pos _
  have part : 0 ≤ v / (2 * f.leadingBit) := by positivity
  obtain ⟨upper, lower⟩ := rounds.bounds
  have step (w : Nat) : (stepAt f w : Rat) ≤ unitsOf f w / f.leadingBit + 1 := by
    have bound : (stepAt f w * f.leadingBit : Rat) ≤ unitsOf f w + f.leadingBit := by
      exact_mod_cast stepAt_mul_le f w
    rw [← le_div_iff₀ leading, add_div, div_self leading.ne'] at bound
    exact bound
  -- A word that is not greater than the real has a step that is small enough.
  have half (w : Nat) (atMost : wordValue f w ≤ v) :
      stepAt f w * 2 ^ f.lowestExponent / 2 ≤
        v / (2 * f.leadingBit) + 2 ^ f.lowestExponent / 2 :=
    calc (stepAt f w : Rat) * 2 ^ f.lowestExponent / 2
        ≤ (unitsOf f w / f.leadingBit + 1) * 2 ^ f.lowestExponent / 2 := by
          linarith [mul_le_mul_of_nonneg_right (step w) unit.le]
      _ = wordValue f w / (2 * f.leadingBit) + 2 ^ f.lowestExponent / 2 := by
          unfold wordValue
          field_simp
      _ ≤ v / (2 * f.leadingBit) + 2 ^ f.lowestExponent / 2 := by
          linarith [div_le_div_of_nonneg_right atMost (by positivity : 0 ≤ 2 * (f.leadingBit : Rat))]
  rw [abs_le]
  constructor
  · rcases le_total (wordValue f word) v with atMost | greater
    · have bound := half word atMost
      unfold wordValue at *
      linarith
    · linarith
  · cases word with
    | zero =>
      simp only [wordValue, unitsOf_zero, Nat.cast_zero, zero_mul]
      linarith
    | succ before =>
      have reaches := lower before rfl
      have next := unitsOf_succ f before
      have atMost : wordValue f before ≤ v := by
        unfold wordValue
        rw [next] at reaches
        push_cast at reaches
        linarith [mul_nonneg (Nat.cast_nonneg (α := Rat) (stepAt f before)) unit.le]
      have bound := half before atMost
      unfold wordValue at *
      linarith

/-! ### A few steps -/

theorem stepAt_mono (f : BinaryFormat) : Monotone (stepAt f) := fun _ _ le =>
  Nat.pow_le_pow_right two_pos (Nat.sub_le_sub_right (Nat.div_le_div_right le) 1)

theorem three_steps_le (f : BinaryFormat) (word : Nat) :
    unitsOf f word + 3 * stepAt f word ≤ unitsOf f (word + 3) := by
  have first := stepAt_mono f (Nat.le_add_right word 1)
  have second := stepAt_mono f (Nat.le_add_right word 2)
  rw [unitsOf_succ f (word + 2), unitsOf_succ f (word + 1), unitsOf_succ f word]
  omega

theorem unitsOf_succ_le (f : BinaryFormat) (word : Nat) :
    unitsOf f (word + 1) ≤ 2 * f.leadingBit * stepAt f word := by
  rw [unitsOf_succ]
  rcases Nat.lt_or_ge word f.leadingBit with subnormal | normal
  · rw [unitsOf_of_lt f word subnormal, stepAt_of_lt f word subnormal]
    omega
  · obtain ⟨field, fraction, inside, rfl⟩ := exists_fields f word normal
    rw [unitsOf_normal f field fraction inside, stepAt_normal f field fraction inside,
      ← Nat.succ_mul]
    exact Nat.mul_le_mul_right _ (by omega)

/-- Three steps down are three of the last one of them, or the number has only just passed a power of
two and they are at least two. -/
theorem three_steps_down (f : BinaryFormat) (word : Nat) :
    unitsOf f word + 3 * stepAt f (word + 2) ≤ unitsOf f (word + 3) ∨
      unitsOf f word + 2 * stepAt f (word + 2) ≤ unitsOf f (word + 3) ∧
        unitsOf f (word + 3) ≤ (f.leadingBit + 2) * stepAt f (word + 2) := by
  have leading : 2 ≤ f.leadingBit := by cases f <;> decide
  have first := stepAt_mono f (Nat.le_add_right word 1)
  have sum : unitsOf f (word + 3) =
      unitsOf f word + stepAt f word + stepAt f (word + 1) + stepAt f (word + 2) := by
    rw [unitsOf_succ f (word + 2), unitsOf_succ f (word + 1), unitsOf_succ f word]
  rcases Nat.lt_or_ge (word + 2) f.leadingBit with subnormal | normal
  · have steps : stepAt f word = stepAt f (word + 2) := by
      rw [stepAt_of_lt f word (by omega), stepAt_of_lt f (word + 2) subnormal]
    omega
  · obtain ⟨field, fraction, inside, fields⟩ := exists_fields f (word + 2) normal
    have last := stepAt_normal f field fraction inside
    rw [← fields] at last
    rcases Nat.lt_or_ge fraction 2 with passed | within
    · -- The step before the power of two may be half the step after it.
      have half : stepAt f (word + 2) ≤ 2 * stepAt f word := by
        rw [last, stepAt, ← Nat.pow_succ']
        apply Nat.pow_le_pow_right two_pos
        have before : field * f.leadingBit ≤ word := by
          rw [Nat.succ_mul] at fields
          omega
        have quotient := (Nat.le_div_iff_mul_le f.leadingBit_pos).mpr before
        omega
      have stands := unitsOf_normal f field fraction inside
      rw [← fields, ← last] at stands
      have next := unitsOf_succ f (word + 2)
      refine .inr ⟨by omega, ?_⟩
      calc unitsOf f (word + 3) = (f.leadingBit + fraction + 1) * stepAt f (word + 2) := by
            rw [next, stands]
            ring
        _ ≤ (f.leadingBit + 2) * stepAt f (word + 2) := Nat.mul_le_mul_right _ (by omega)
    · have steps : stepAt f word = stepAt f (word + 2) := by
        have before : word = (field + 1) * f.leadingBit + (fraction - 2) := by omega
        rw [last, before, stepAt_normal f field _ (by omega)]
      omega

/-- How far a result may be from the exact one, if it has the errors of two roundings and a bit. -/
def IsClose (f : BinaryFormat) (v w : Rat) : Prop :=
  |w - v| ≤ 11 * v / (10 * f.leadingBit) + 2 ^ f.lowestExponent / 20

/-- What is close to a real that is rounded to a word lies at most three steps above the word. -/
theorem IsClose.le_wordValue {v w : Rat} {word : Nat} (close : IsClose f v w)
    (exact : RoundsTo f v word) : w ≤ wordValue f (word + 3) := by
  have leading : (0 : Rat) < f.leadingBit := Nat.cast_pos.mpr f.leadingBit_pos
  have unit : (0 : Rat) < 2 ^ f.lowestExponent := zpow_pos two_pos _
  have oneStep : (1 : Rat) ≤ stepAt f word := Nat.one_le_cast.mpr (stepAt_pos f word)
  have steps : (unitsOf f word + 3 * stepAt f word : Rat) ≤ unitsOf f (word + 3) := by
    exact_mod_cast three_steps_le f word
  have size : (unitsOf f word + stepAt f word : Rat) ≤ 2 * f.leadingBit * stepAt f word := by
    exact_mod_cast unitsOf_succ f word ▸ unitsOf_succ_le f word
  obtain ⟨upper, -⟩ := exact.bounds
  have error := (abs_le.mp close).2
  unfold wordValue
  generalize (2 : Rat) ^ f.lowestExponent = u at *
  have oneUnit : u ≤ stepAt f word * u := le_mul_of_one_le_left unit.le oneStep
  have scaledSteps := mul_le_mul_of_nonneg_right steps unit.le
  have scaledSize := mul_le_mul_of_nonneg_right size unit.le
  have part : v / f.leadingBit ≤ 2 * (stepAt f word * u) := by
    rw [div_le_iff₀ leading]
    linarith
  have whole : 11 * v / (10 * f.leadingBit) = 11 / 10 * (v / f.leadingBit) := by
    field_simp
  linarith

/-- And at most three steps below it. -/
theorem IsClose.wordValue_le {v w : Rat} {word : Nat} (close : IsClose f v w)
    (exact : RoundsTo f v (word + 3)) : wordValue f word ≤ w := by
  have leading : (20 : Rat) ≤ f.leadingBit := by
    have bound : 20 ≤ f.leadingBit := by cases f <;> decide
    exact_mod_cast bound
  have unit : (0 : Rat) < 2 ^ f.lowestExponent := zpow_pos two_pos _
  have oneStep : (1 : Rat) ≤ stepAt f (word + 2) := Nat.one_le_cast.mpr (stepAt_pos f _)
  have lower := exact.bounds.2 (word + 2) rfl
  have error := (abs_le.mp close).1
  have size : (unitsOf f (word + 3) : Rat) ≤ 2 * f.leadingBit * stepAt f (word + 2) := by
    exact_mod_cast unitsOf_succ_le f (word + 2)
  have steps : (unitsOf f word + 3 * stepAt f (word + 2) : Rat) ≤ unitsOf f (word + 3) ∨
      (unitsOf f word + 2 * stepAt f (word + 2) : Rat) ≤ unitsOf f (word + 3) ∧
        (unitsOf f (word + 3) : Rat) ≤ (f.leadingBit + 2) * stepAt f (word + 2) := by
    exact_mod_cast three_steps_down f word
  unfold wordValue
  generalize (2 : Rat) ^ f.lowestExponent = u at *
  generalize (stepAt f (word + 2) : Rat) = step at *
  have oneUnit : u ≤ step * u := le_mul_of_one_le_left unit.le oneStep
  -- The error grows more slowly than the real, so its least value is at the lower boundary.
  let least := (unitsOf f (word + 3) - step / 2) * u
  have above : 0 ≤ v - least := by
    simp only [least]
    linarith
  have growth : (v - least) / f.leadingBit ≤ (v - least) / 20 :=
    div_le_div_of_nonneg_left above (by norm_num) leading
  have split : 11 * v / (10 * f.leadingBit) =
      11 / 10 * (least / f.leadingBit) + 11 / 10 * ((v - least) / f.leadingBit) := by
    field_simp
    ring
  have bound : least - 11 / 10 * (least / f.leadingBit) - step * u / 20 ≤ w := by linarith
  rcases steps with three | ⟨two, passed⟩
  · have part : least / f.leadingBit ≤ 2 * (step * u) := by
      rw [div_le_iff₀ (by linarith)]
      have scaled := mul_le_mul_of_nonneg_right size unit.le
      simp only [least]
      linarith
    have scaled := mul_le_mul_of_nonneg_right three unit.le
    simp only [least] at bound part
    linarith
  · have part : least / f.leadingBit ≤ 11 / 10 * (step * u) := by
      rw [div_le_iff₀ (by linarith)]
      have scaled := mul_le_mul_of_nonneg_right passed unit.le
      have spare := mul_le_mul_of_nonneg_right leading (by linarith : 0 ≤ step * u)
      simp only [least]
      linarith
    have scaled := mul_le_mul_of_nonneg_right two unit.le
    simp only [least] at bound part
    linarith

/-- Rounding something close instead of the exact result gives one of the three neighbours on either
side, or the same number. -/
theorem IsRoundingOf.near {v w : Rat} {y : Binary f} {word : Nat} (rounded : IsRoundingOf w y)
    (close : IsClose f v w) (exact : RoundsTo f v word) (finite : word < f.infinity) :
    y.magnitude ≤ word + 3 ∧ word ≤ y.magnitude + 3 := by
  refine ⟨rounded.le_of_le (close.le_wordValue exact), ?_⟩
  rcases Nat.lt_or_ge word 3 with small | several
  · omega
  · obtain ⟨before, rfl⟩ := Nat.exists_eq_add_of_le' several
    have reaches := rounded.ge_of_ge (by omega) (close.wordValue_le exact)
    omega

end Raster.Binary
