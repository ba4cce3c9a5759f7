import Raster.Edit
import Raster.Proofs.Statistics.Range

/-!
# Stretching the range

An image of levels takes on the greatest range that a whole factor can give it. The factor comes
from the range of the image itself, so no difference from its lowest pixel leaves the levels when it
is multiplied. The factor is never zero, so a greater pixel remains a greater one.
-/

namespace Raster

/-! ### Whole factors -/

/-- A rounded quotient takes nothing within the divisor beyond the dividend. -/
theorem div_mul_le_of_le {n span : Nat} (limit : Nat) (inside : n ≤ span) :
    limit / span * n ≤ limit :=
  Nat.le_trans (Nat.mul_le_mul_left _ inside) (Nat.div_mul_le_self limit span)

/-- Rounding loses less than half of the dividend, unless the divisor is larger. -/
theorem lt_two_mul_div_mul {span limit : Nat} (pos : 0 < span) (inside : span ≤ limit) :
    limit < 2 * (limit / span * span) := by
  have quotient : 1 ≤ limit / span := Nat.div_pos inside pos
  calc limit < limit / span * span + span := Nat.lt_div_mul_add pos
    _ ≤ limit / span * span + limit / span * span :=
      Nat.add_le_add_left (Nat.le_mul_of_pos_left span quotient) _
    _ = 2 * (limit / span * span) := (Nat.two_mul _).symm

/-- A positive factor keeps the order of differences. -/
theorem compare_mul_sub {factor low m n : Nat} (pos : 0 < factor) (aboveM : low ≤ m)
    (aboveN : low ≤ n) : compare (factor * (m - low)) (factor * (n - low)) = compare m n := by
  have scaled : factor * (m - low) < factor * (n - low) ↔ m < n := by
    rw [Nat.mul_lt_mul_left pos]
    omega
  have scaledBack : factor * (n - low) < factor * (m - low) ↔ n < m := by
    rw [Nat.mul_lt_mul_left pos]
    omega
  simp only [Nat.compare_eq_ite_lt, scaled, scaledBack]

theorem Level.toNat_div {bits : Nat} (x y : Level bits) (pos : 0 < y.toNat) :
    (x / y).toNat = x.toNat / y.toNat := by
  have quotient : x / y = ofNat (x.toNat / y.toNat) := if_neg (Nat.pos_iff_ne_zero.mp pos)
  rw [quotient]
  exact Nat.min_eq_left (Nat.le_trans (Nat.div_le_self ..) x.toNat_le)

/-! ### Pixels that are levels -/

namespace Pixel

variable {f : PixelFormat}

/-- The number of a pixel that is a single level. -/
def level : {f : PixelFormat} → f.IsLevel → Pixel f → Nat
  | .gray8, _, (p : Level 8) => p.toNat
  | .gray16, _, (p : Level 16) => p.toNat

/-- The greatest pixel. -/
def top : {f : PixelFormat} → f.IsLevel → Pixel f
  | .gray8, _ => (Level.top : Level 8)
  | .gray16, _ => (Level.top : Level 16)

/-- The greatest whole factor that keeps a range within that of levels, as a pixel. There is none
for a range of one pixel, which gets the greatest pixel. -/
def stretchFactor (levels : f.IsLevel) (low high : Pixel f) : Pixel f :=
  if high = low then top levels else top levels / (high - low)

variable (levels : f.IsLevel)

theorem level_le (p : Pixel f) : p.level levels ≤ (top levels).level levels := by
  cases levels with
  | gray8 | gray16 => exact Level.toNat_le p

theorem level_top_pos : 0 < (top levels).level levels := by
  cases levels <;> decide

theorem level_zero : (zero f).level levels = 0 := by
  cases levels <;> rfl

theorem level_injective {p q : Pixel f} (same : p.level levels = q.level levels) : p = q := by
  cases levels with
  | gray8 | gray16 => exact Level.ext same

theorem level_sub (p q : Pixel f) : (p - q).level levels = p.level levels - q.level levels := by
  cases levels with
  | gray8 | gray16 => exact Level.toNat_sub p q

theorem level_mul (p q : Pixel f)
    (inside : p.level levels * q.level levels ≤ (top levels).level levels) :
    (p * q).level levels = p.level levels * q.level levels := by
  cases levels with
  | gray8 | gray16 => exact (Level.toNat_mul p q).trans (Nat.min_eq_left inside)

theorem level_div (p q : Pixel f) (pos : 0 < q.level levels) :
    (p / q).level levels = p.level levels / q.level levels := by
  cases levels with
  | gray8 | gray16 => exact Level.toNat_div p q pos

theorem compare?_eq_compare_level (p q : Pixel f) :
    p.compare? q = some (compare (p.level levels) (q.level levels)) := by
  cases levels <;> rfl

theorem lessThan_iff_level_lt (p q : Pixel f) :
    p.lessThan q = true ↔ p.level levels < q.level levels := by
  rw [lessThan, compare?_eq_compare_level levels]
  simp [Nat.compare_eq_lt]

include levels in
theorem isOrdered_of_isLevel (p : Pixel f) : View.isOrdered p = true := by
  rw [View.isOrdered, compare?_eq_compare_level levels]
  rfl

/-! ### Stretched pixels -/

structure IsWithin (low high p : Pixel f) : Prop where
  low_le : low.level levels ≤ p.level levels
  le_high : p.level levels ≤ high.level levels

variable {levels} {low high p q : Pixel f}

theorem level_stretchFactor (differ : high.level levels ≠ low.level levels)
    (ordered : low.level levels ≤ high.level levels) :
    (stretchFactor levels low high).level levels =
      (top levels).level levels / (high.level levels - low.level levels) := by
  have other : high ≠ low := fun same => differ (congrArg (level levels) same)
  have span : 0 < (high - low).level levels := by
    rw [level_sub]
    omega
  rw [stretchFactor, if_neg other, level_div levels _ _ span, level_sub]

theorem stretchFactor_pos (ordered : low.level levels ≤ high.level levels) :
    0 < (stretchFactor levels low high).level levels := by
  by_cases same : high.level levels = low.level levels
  · rw [stretchFactor, if_pos (level_injective levels same)]
    exact level_top_pos levels
  · rw [level_stretchFactor same ordered]
    -- The difference is a level too, so the quotient is at least one.
    have bound := high.level_le levels
    exact Nat.div_pos (by omega) (by omega)

theorem IsWithin.factor_mul_le (within : IsWithin levels low high p) :
    (stretchFactor levels low high).level levels * (p.level levels - low.level levels) ≤
      (top levels).level levels := by
  have span := Nat.sub_le_sub_right within.le_high (low.level levels)
  by_cases same : high.level levels = low.level levels
  · have nothing : p.level levels - low.level levels = 0 := by omega
    rw [nothing]
    exact Nat.zero_le _
  · rw [level_stretchFactor same (Nat.le_trans within.low_le within.le_high)]
    exact div_mul_le_of_le _ span

/-- Neither the difference nor the product saturates. -/
theorem IsWithin.level_stretched (within : IsWithin levels low high p) :
    (stretchFactor levels low high * (p - low)).level levels =
      (stretchFactor levels low high).level levels * (p.level levels - low.level levels) := by
  have inside := within.factor_mul_le
  rw [← level_sub] at inside ⊢
  exact level_mul levels _ _ inside

theorem compare?_stretched (withinP : IsWithin levels low high p)
    (withinQ : IsWithin levels low high q) :
    (stretchFactor levels low high * (p - low)).compare?
        (stretchFactor levels low high * (q - low)) = p.compare? q := by
  have pos := stretchFactor_pos (Nat.le_trans withinP.low_le withinP.le_high)
  simp only [compare?_eq_compare_level levels, withinP.level_stretched, withinQ.level_stretched,
    compare_mul_sub pos withinP.low_le withinQ.low_le]

theorem lessThan_stretched (withinP : IsWithin levels low high p)
    (withinQ : IsWithin levels low high q) :
    (stretchFactor levels low high * (p - low)).lessThan
        (stretchFactor levels low high * (q - low)) = p.lessThan q := by
  rw [lessThan, compare?_stretched withinP withinQ, lessThan]

/-- The level is the whole product, without a subtraction that is cut off. -/
theorem IsWithin.level_eq_iff (within : IsWithin levels low high p) (q : Pixel f) :
    (q.level levels : Int) =
        (stretchFactor levels low high).level levels * (p.level levels - low.level levels) ↔
      stretchFactor levels low high * (p - low) = q := by
  rw [← Int.ofNat_sub within.low_le, ← Int.natCast_mul, Int.ofNat_inj, ← within.level_stretched]
  exact ⟨fun same => (level_injective levels same).symm, fun same => same ▸ rfl⟩

theorem IsWithin.stretched_low (within : IsWithin levels low high low) :
    stretchFactor levels low high * (low - low) = zero f := by
  apply level_injective levels
  rw [within.level_stretched, level_zero, Nat.sub_self, Nat.mul_zero]

theorem IsWithin.lt_two_mul_stretched_high (within : IsWithin levels low high high)
    (different : low.level levels < high.level levels) :
    (top levels).level levels <
      2 * (stretchFactor levels low high * (high - low)).level levels := by
  have bound := high.level_le levels
  rw [within.level_stretched, level_stretchFactor (Nat.ne_of_gt different) within.low_le]
  exact lt_two_mul_div_mul (by omega) (by omega)

end Pixel

/-! ### The range of stretched pixels -/

namespace View

variable {f : PixelFormat}

/-- A rule that keeps the order takes the range to the range, since the pass compares and does
nothing else. -/
theorem foldl_widen_map (rule : Pixel f → Pixel f) (all : List (Pixel f))
    (same : ∀ p ∈ all, ∀ q ∈ all, (rule p).lessThan (rule q) = p.lessThan q) (rest : List (Pixel f))
    (range : Pixel f × Pixel f) (rest_subset : rest ⊆ all) (low : range.1 ∈ all)
    (high : range.2 ∈ all) :
    (rest.map rule).foldl widen (range.map rule rule) = (rest.foldl widen range).map rule rule := by
  induction rest generalizing range with
  | nil => rfl
  | cons p rest ih =>
    obtain ⟨member, others⟩ := List.cons_subset.mp rest_subset
    have step : widen (range.map rule rule) (rule p) = (widen range p).map rule rule := by
      simp only [widen, Prod.map, same p member _ low, same _ high p member, apply_ite rule]
    -- The ends of the range are always among the pixels whose order the rule keeps.
    have stays (q : Pixel f) (kept : q ∈ all) (c : Prop) [Decidable c] :
        (if c then p else q) ∈ all := by
      split
      · exact member
      · exact kept
    rw [List.map_cons, List.foldl_cons, List.foldl_cons, step]
    exact ih (widen range p) others (stays _ low _) (stays _ high _)

theorem bounds_map (rule : Pixel f → Pixel f) (pixels : List (Pixel f))
    (same : ∀ p ∈ pixels, ∀ q ∈ pixels, (rule p).lessThan (rule q) = p.lessThan q) :
    bounds (pixels.map rule) = (bounds pixels).map (Prod.map rule rule) := by
  cases pixels with
  | nil => rfl
  | cons first rest =>
    have member : first ∈ first :: rest := List.mem_cons_self
    rw [List.map_cons, bounds_cons, bounds_cons, Option.map_some]
    exact congrArg some (foldl_widen_map rule _ same rest (first, first)
      (List.subset_cons_self _ _) member member)

end View

/-! ### Stretched images -/

namespace Image

variable {f : PixelFormat} {levels : f.IsLevel}

/-- The pixels are multiples of their differences from the lowest one, as whole numbers. Nothing is
cut off, no two pixels change their order, and the range reaches beyond half of that of levels. -/
structure IsStretchOf (levels : f.IsLevel) (img new : Image (Pixel f)) (factor low high : Pixel f) :
    Prop where
  size_eq : new.size = img.size
  get_iff : ∀ position q, new.get position = .ok q ↔ ∃ p, img.get position = .ok p ∧
    (q.level levels : Int) = factor.level levels * (p.level levels - low.level levels)
  compare_eq : ∀ i j p q p' q', img.get i = .ok p → img.get j = .ok q → new.get i = .ok p' →
    new.get j = .ok q' → p'.compare? q' = p.compare? q
  range_eq : ∃ greatest, new.asView.range = .ok (some (Pixel.zero f, greatest)) ∧
    (greatest.level levels : Int) =
      factor.level levels * (high.level levels - low.level levels) ∧
    (low.lessThan high = true → (Pixel.top levels).level levels < 2 * greatest.level levels)
  all_zero : low = high → ∀ position q, new.get position = .ok q → q = Pixel.zero f

theorem exists_first (img : Image (Pixel f)) (nonempty : img.isEmpty = false) :
    ∃ p, img.get (.linear 0) = .ok p := by
  have stored : 0 < img.data.toList.length := by
    rw [Slice.length_toList, length_data_eq]
    exact Nat.pos_iff_ne_zero.mpr (by simpa [isEmpty, Storage.isEmpty] using nonempty)
  exact ⟨_, (img.get_linear_eq_ok_iff 0 _).mpr (List.getElem?_eq_getElem stored)⟩

/-- An image with pixels has a lowest and a highest one, and all are within. -/
theorem exists_levelRange (levels : f.IsLevel) (img : Image (Pixel f)) (wf : img.WellFormed)
    (nonempty : img.isEmpty = false) :
    ∃ low high, img.asView.range = .ok (some (low, high)) ∧ low ∈ img.data.toList ∧
      high ∈ img.data.toList ∧ ∀ p ∈ img.data.toList, Pixel.IsWithin levels low high p := by
  have ordered := Pixel.isOrdered_of_isLevel levels
  obtain ⟨range, found, isRange_iff⟩ := img.exists_range wf
  have isRange := (isRange_iff range).mpr rfl
  cases range with
  | none =>
    obtain ⟨p, first⟩ := img.exists_first nonempty
    have unordered := isRange.eq_none_iff.mp rfl 0 p first
    rw [ordered p] at unordered
    cases unordered
  | some ends =>
    obtain ⟨low, high⟩ := ends
    obtain ⟨⟨i, getLow, -, aboveLow⟩, ⟨j, getHigh, -, belowHigh⟩⟩ := isRange.extremes low high rfl
    rw [get_linear_eq_ok_iff] at getLow getHigh
    refine ⟨low, high, found, List.mem_of_getElem? getLow, List.mem_of_getElem? getHigh, ?_⟩
    intro p member
    obtain ⟨k, here⟩ := List.mem_iff_getElem?.mp member
    have getP := (img.get_linear_eq_ok_iff k p).mpr here
    have notBelow := (aboveLow k p getP (ordered p)).1
    have notAbove := (belowHigh k p getP (ordered p)).1
    rw [Bool.eq_false_iff, ne_eq, Pixel.lessThan_iff_level_lt levels] at notBelow notAbove
    exact ⟨Nat.le_of_not_lt notBelow, Nat.le_of_not_lt notAbove⟩

theorem range_apply (levels : f.IsLevel) (img : Image (Pixel f)) (wf : img.WellFormed)
    (rule : Pixel f → Pixel f)
    (same : ∀ p ∈ img.data.toList, ∀ q ∈ img.data.toList,
      (rule p).lessThan (rule q) = p.lessThan q)
    (low high : Pixel f) (found : img.asView.range = .ok (some (low, high))) :
    (img.apply fun _ old => rule old).asView.range = .ok (some (rule low, rule high)) := by
  have newWf : (img.apply fun _ old => rule old).WellFormed := wellFormed_apply wf _
  have ordered (pixels : List (Pixel f)) : pixels.filter View.isOrdered = pixels :=
    List.filter_eq_self.mpr fun p _ => Pixel.isOrdered_of_isLevel levels p
  rw [range_asView _ wf, ordered, Except.ok.injEq] at found
  rw [range_asView _ newWf, ordered, img.toList_apply_each, View.bounds_map rule _ same, found]
  rfl

theorem isStretchOf_apply (img : Image (Pixel f)) (wf : img.WellFormed) (low high : Pixel f)
    (found : img.asView.range = .ok (some (low, high))) (memberLow : low ∈ img.data.toList)
    (memberHigh : high ∈ img.data.toList)
    (within : ∀ p ∈ img.data.toList, Pixel.IsWithin levels low high p) :
    IsStretchOf levels img
      (img.apply fun _ old => Pixel.stretchFactor levels low high * (old - low))
      (Pixel.stretchFactor levels low high) low high := by
  let rule (p : Pixel f) : Pixel f := Pixel.stretchFactor levels low high * (p - low)
  have inside (position : Position) (p : Pixel f) (here : img.get position = .ok p) :
      Pixel.IsWithin levels low high p := by
    obtain ⟨i, -, item⟩ := (img.get_eq_ok_iff position p).mp here
    exact within p (List.mem_of_getElem? item)
  have shown := img.get_map_eq_ok_iff (img.apply fun _ old => rule old) rule rfl
    (img.toList_apply_each rule)
  constructor
  case size_eq => rfl
  case get_iff =>
    intro position q
    rw [shown]
    apply exists_congr
    intro p
    apply and_congr_right
    intro here
    exact ((inside position p here).level_eq_iff q).symm
  case compare_eq =>
    intro i j p q p' q' getP getQ newP newQ
    obtain ⟨_, here, rfl⟩ := (shown i p').mp newP
    obtain ⟨_, there, rfl⟩ := (shown j q').mp newQ
    obtain rfl := Except.ok.inj (getP.symm.trans here)
    obtain rfl := Except.ok.inj (getQ.symm.trans there)
    exact Pixel.compare?_stretched (inside i p here) (inside j q there)
  case range_eq =>
    have withinHigh := within high memberHigh
    have stretched := img.range_apply levels wf rule
      (fun p memberP q memberQ => Pixel.lessThan_stretched (within p memberP) (within q memberQ))
      low high found
    refine ⟨rule high, ?_, (withinHigh.level_eq_iff _).mpr rfl, fun different => ?_⟩
    · rw [← (within low memberLow).stretched_low]
      exact stretched
    · rw [Pixel.lessThan_iff_level_lt levels] at different
      exact withinHigh.lt_two_mul_stretched_high different
  case all_zero =>
    rintro rfl position q newQ
    obtain ⟨p, here, rfl⟩ := (shown position q).mp newQ
    -- Whatever the factor is, there is no difference to multiply.
    have withinP := inside position p here
    have only : p = low :=
      Pixel.level_injective levels (Nat.le_antisymm withinP.le_high withinP.low_le)
    subst only
    exact withinP.stretched_low

/-- Stretching an image of levels by the factor of its own range is exact. -/
theorem stretch_exact (levels : f.IsLevel) (img : Image (Pixel f)) (reachable : img.Reachable)
    (nonempty : img.isEmpty = false) :
    ∃ low high new, img.asView.range = .ok (some (low, high)) ∧
      Edit.run img (.stretch (Pixel.stretchFactor levels low high) low) = .done new ∧
      IsStretchOf levels img new (Pixel.stretchFactor levels low high) low high := by
  have wf := reachable.wellFormed
  obtain ⟨low, high, found, memberLow, memberHigh, within⟩ :=
    img.exists_levelRange levels wf nonempty
  have stretched := img.isStretchOf_apply wf low high found memberLow memberHigh within
  exact ⟨low, high, _, found, rfl, stretched⟩

def level16 (n : Nat) : Pixel .gray16 :=
  (Level.ofNat n : Level 16)

def threeLevels : Image (Pixel .gray16) :=
  ⟨3, 1, .ofArray ([7, 2, 9].map level16).toArray⟩

/-- Seven levels of difference leave a factor of 9362. The greatest level is not quite reached. -/
theorem stretch_exact_threeLevels :
    threeLevels.Reachable ∧ threeLevels.isEmpty = false ∧
      threeLevels.asView.range = .ok (some (level16 2, level16 9)) ∧ ∃ new,
      Edit.run threeLevels (.stretch (level16 9362) (level16 2)) = .done new ∧
      new.get (.cell 0 0) = .ok (level16 46810) ∧
      new.asView.range = .ok (some (level16 0, level16 65534)) := by
  have made : threeLevels.Reachable := reachable_ofArray 3 1 _ rfl
  obtain ⟨low, high, new, found, ran, stretched⟩ := stretch_exact .gray16 threeLevels made rfl
  have listed := found
  rw [threeLevels.range_asView made.wellFormed, threeLevels, toList_ofArray,
    Except.ok.injEq] at listed
  have ends : View.bounds (([7, 2, 9].map level16).filter View.isOrdered) =
      some (level16 2, level16 9) := by
    decide +kernel
  obtain ⟨rfl, rfl⟩ := Prod.mk.inj (Option.some.inj (ends.symm.trans listed))
  have factor : Pixel.stretchFactor .gray16 (level16 2) (level16 9) = level16 9362 := by
    decide +kernel
  rw [factor] at ran stretched
  have seven : threeLevels.get (.cell 0 0) = .ok (level16 7) := by
    rw [get_cell_eq_ok_iff _ _ _ _ (by decide) (by decide), threeLevels, toList_ofArray]
    rfl
  obtain ⟨greatest, newRange, exact_, -⟩ := stretched.range_eq
  have greatest_eq : greatest = level16 65534 :=
    Pixel.level_injective .gray16 (Int.ofNat.inj exact_)
  refine ⟨made, rfl, found, new, ran, ?_, greatest_eq ▸ newRange⟩
  exact (stretched.get_iff _ _).mpr ⟨level16 7, seven, rfl⟩

end Image

end Raster
