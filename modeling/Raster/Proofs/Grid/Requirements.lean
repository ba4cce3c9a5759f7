import Raster.Proofs.Binary.Rounding
import Raster.Proofs.Grid.Layout
import Raster.Proofs.View.Window

/-!
# Which grids exist

A grid has requirements on the sizes and the overlap. If all are met, there is one: each of its
windows lies in the image and can be cut out of every image of the size. If not, the first that is
not met is reported. Nothing on the way leaves the range of coordinates, so there is no other way to
fail.
-/

namespace Raster

namespace Grid

/-- What has to hold, and what is reported if it does not. -/
structure Requirement where
  met : Prop
  refusal : Error

/-- The refusal belongs to a requirement that is not met, and all before it are. -/
def FirstUnmet (requirements : List Requirement) (refusal : Error) : Prop :=
  ∃ before unmet after, requirements = before ++ unmet :: after ∧ (∀ r ∈ before, r.met) ∧
    ¬unmet.met ∧ unmet.refusal = refusal

theorem firstUnmet_nil (refusal : Error) : ¬FirstUnmet [] refusal := by
  rintro ⟨before, unmet, after, split, -⟩
  simp at split

theorem firstUnmet_cons (first : Requirement) (rest : List Requirement) (refusal : Error) :
    FirstUnmet (first :: rest) refusal ↔
      (¬first.met ∧ first.refusal = refusal) ∨ (first.met ∧ FirstUnmet rest refusal) := by
  constructor
  · rintro ⟨before, unmet, after, split, met, fails, reported⟩
    cases before with
    | nil =>
      obtain ⟨rfl, rfl⟩ := List.cons.inj split
      exact .inl ⟨fails, reported⟩
    | cons r before =>
      obtain ⟨rfl, rfl⟩ := List.cons.inj split
      obtain ⟨holds, met⟩ := List.forall_mem_cons.mp met
      exact .inr ⟨holds, before, unmet, after, rfl, met, fails, reported⟩
  · rintro (⟨fails, reported⟩ | ⟨holds, before, unmet, after, rfl, met, fails, reported⟩)
    · exact ⟨[], first, rest, rfl, by simp, fails, reported⟩
    · exact ⟨first :: before, unmet, after, rfl, List.forall_mem_cons.mpr ⟨holds, met⟩, fails,
        reported⟩

theorem forall_met_iff (requirements : List Requirement) :
    (∀ r ∈ requirements, r.met) ↔ ∀ refusal, ¬FirstUnmet requirements refusal := by
  induction requirements with
  | nil => simp [firstUnmet_nil]
  | cons first rest ih =>
    rw [List.forall_mem_cons, ih]
    simp only [firstUnmet_cons]
    constructor
    · rintro ⟨holds, restMet⟩ refusal (⟨fails, -⟩ | ⟨-, unmet⟩)
      · exact fails holds
      · exact restMet refusal unmet
    · intro unrefused
      have holds : first.met :=
        Classical.byContradiction fun fails => unrefused first.refusal (.inl ⟨fails, rfl⟩)
      exact ⟨holds, fun refusal unmet => unrefused refusal (.inr ⟨holds, unmet⟩)⟩

/-- One check of a chain of checks. The others can rely on it. -/
theorem ite_eq_error_iff (fails : Prop) [Decidable fails] (r : Requirement)
    (rest : List Requirement) (others : Except Error Unit) (refusal : Error)
    (unmet : fails ↔ ¬r.met)
    (checked : r.met → (others = .error refusal ↔ FirstUnmet rest refusal)) :
    (if fails then .error r.refusal else others) = .error refusal ↔
      FirstUnmet (r :: rest) refusal := by
  rw [firstUnmet_cons]
  by_cases holds : fails
  · simp [holds, unmet.mp holds]
  · have met : r.met := Classical.byContradiction fun notMet => holds (unmet.mpr notMet)
    simp [holds, met, checked met]

/-! ### The requirements of a grid -/

/-- A number from zero to one. What is not a number is none of these. -/
def IsFraction (overlap : Double) : Prop :=
  overlap.IsFinite ∧ 0 ≤ overlap.toRat ∧ overlap.toRat ≤ 1

/-- The integer part of an extent times a fraction, where the product is rounded to a number first. -/
def share (extent : UInt32) (overlap : Double) : Nat :=
  ⌊(Binary.ofNat extent.toNat * overlap).toRat⌋₊

/-- In the order in which they are checked. -/
def requirements (image window : Size) (overlap : Double) : List Requirement :=
  [⟨image.width ≠ 0 ∧ image.height ≠ 0, .emptyImage image⟩,
    ⟨window.width ≠ 0 ∧ window.height ≠ 0, .emptyWindow window⟩,
    ⟨IsFraction overlap, .overlapOutOfRange overlap⟩,
    ⟨1 ≤ share window.width overlap ∧ 1 ≤ share window.height overlap, .zeroOverlap overlap window⟩,
    ⟨window.width ≤ image.width ∧ window.height ≤ image.height, .windowTooLarge window image⟩]

theorem eq_zero_iff (a : UInt32) : a = 0 ↔ ¬1 ≤ a.toNat := by
  rw [← UInt32.toNat_inj]
  simp

theorem area_eq_zero_iff (size : Size) : size.area = 0 ↔ ¬(size.width ≠ 0 ∧ size.height ≠ 0) := by
  have width : size.width = 0 ↔ size.width.toNat = 0 := UInt32.toNat_inj.symm
  have height : size.height = 0 ↔ size.height.toNat = 0 := UInt32.toNat_inj.symm
  rw [Size.area, Nat.mul_eq_zero, ← width, ← height, ne_eq, ne_eq, not_and_or, not_not, not_not]

theorem isFraction_iff (overlap : Double) :
    (Binary.zero.atMost overlap && overlap.atMost (Binary.ofNat 1)) = true ↔ IsFraction overlap := by
  obtain ⟨finite, one⟩ := Binary.toRat_ofNat .double 1 (by decide)
  rw [Binary.between_iff _ _ _ (by decide) finite, Binary.toRat_zero, one, Nat.cast_one]
  rfl

/-- Extents are exact as numbers, and rounding does not make a share larger than the whole. -/
theorem product_bounds (extent : UInt32) (overlap : Double) (fraction : IsFraction overlap) :
    (Binary.ofNat extent.toNat * overlap).IsFinite ∧
      0 ≤ (Binary.ofNat extent.toNat * overlap).toRat ∧
      (Binary.ofNat extent.toNat * overlap).toRat ≤ (extent.toNat : Rat) := by
  obtain ⟨finite, nonneg, atMostOne⟩ := fraction
  have small : extent.toNat ≤ 2 * BinaryFormat.double.leadingBit :=
    Nat.le_of_lt (Nat.lt_of_lt_of_le extent.toNat_lt (by decide))
  obtain ⟨exact_, value⟩ := Binary.toRat_ofNat .double extent.toNat small
  have whole : 0 ≤ (Binary.ofNat extent.toNat : Double).toRat := value ▸ Nat.cast_nonneg _
  rw [← value]
  exact Binary.mul_share _ overlap exact_ finite whole nonneg atMostOne

theorem share_le (extent : UInt32) (overlap : Double) (fraction : IsFraction overlap) :
    share extent overlap ≤ extent.toNat :=
  Nat.floor_le_of_le (product_bounds extent overlap fraction).2.2

/-- Truncation takes the share, which a coordinate can hold. -/
theorem toNat_step (extent : UInt32) (overlap : Double) (fraction : IsFraction overlap) :
    (step extent overlap).toNat = share extent overlap := by
  obtain ⟨finite, nonneg, -⟩ := product_bounds extent overlap fraction
  have bounded : share extent overlap < UInt32.size :=
    Nat.lt_of_le_of_lt (share_le extent overlap fraction) extent.toNat_lt
  have unlimited : min (UInt32.size - 1) (share extent overlap) = share extent overlap :=
    Nat.min_eq_right (Nat.le_sub_one_of_lt bounded)
  have truncated : (Binary.ofNat extent.toNat * overlap).truncatedWithin 0 (UInt32.size - 1) =
      (share extent overlap : Int) := by
    rw [← unlimited]
    exact Binary.truncatedWithin_eq _ finite nonneg (UInt32.size - 1)
  unfold step
  rw [truncated, Int.toNat_natCast]
  exact UInt32.toNat_ofNat_of_lt' bounded

theorem check_eq_error_iff (image window : Size) (overlap : Double) (refusal : Error) :
    check image window overlap = .error refusal ↔
      FirstUnmet (requirements image window overlap) refusal := by
  -- One check for each requirement. That of the steps relies on the overlap being a fraction.
  apply ite_eq_error_iff _ ⟨_, .emptyImage image⟩ _ _ _ (area_eq_zero_iff image)
  intro _
  apply ite_eq_error_iff _ ⟨_, .emptyWindow window⟩ _ _ _ (area_eq_zero_iff window)
  intro _
  apply ite_eq_error_iff _ ⟨_, .overlapOutOfRange overlap⟩
  · rw [← isFraction_iff, Bool.not_eq_true, Bool.not_eq_true']
  intro fraction
  apply ite_eq_error_iff _ ⟨_, .zeroOverlap overlap window⟩
  · rw [eq_zero_iff, eq_zero_iff, toNat_step _ _ fraction, toNat_step _ _ fraction, ← not_and_or]
  intro _
  apply ite_eq_error_iff _ ⟨_, .windowTooLarge window image⟩
  · rw [← UInt32.not_le, ← UInt32.not_le, ← not_and_or]
  intro _
  simp [firstUnmet_nil]

theorem check_eq_ok_iff (image window : Size) (overlap : Double) :
    check image window overlap = .ok () ↔ ∀ r ∈ requirements image window overlap, r.met := by
  rw [forall_met_iff]
  simp only [← check_eq_error_iff]
  cases check image window overlap <;> simp

/-! ### Generation -/

theorem generate_of_refused (image window : Size) (overlap : Double) (refusal : Error)
    (refused : check image window overlap = .error refusal) :
    generate image window overlap = .error (.error refusal) := by
  unfold generate
  rw [refused]
  rfl

/-- If all requirements are met, both axes have a layout, and the windows are listed row by row. -/
theorem generate_of_met (image window : Size) (overlap : Double)
    (met : ∀ r ∈ requirements image window overlap, r.met) :
    ∃ columns rows : Axis,
      columns.IsLayoutOf image.width window.width (step window.width overlap) ∧
      rows.IsLayoutOf image.height window.height (step window.height overlap) ∧
      ∃ records, generate image window overlap = .ok (lattice columns rows window, records) := by
  have accepted := (check_eq_ok_iff image window overlap).mpr met
  simp only [requirements, List.forall_mem_cons] at met
  obtain ⟨-, ⟨width, height⟩, fraction, ⟨stepX, stepY⟩, ⟨fitsX, fitsY⟩, -⟩ := met
  -- The layouts need a step of at least one, which is the share that is required.
  rw [← toNat_step _ _ fraction] at stepX stepY
  have positive (a : UInt32) (nonzero : a ≠ 0) : 0 < a.toNat :=
    Nat.pos_of_ne_zero fun zero => nonzero (UInt32.toNat_inj.mp zero)
  obtain ⟨columns, laidAcross, across⟩ := Axis.layout_eq_ok image.width window.width _
    (positive _ width) (UInt32.le_iff_toNat_le.mp fitsX) stepX
  obtain ⟨rows, laidDown, down⟩ := Axis.layout_eq_ok image.height window.height _
    (positive _ height) (UInt32.le_iff_toNat_le.mp fitsY) stepY
  refine ⟨columns, rows, across, down, ?_⟩
  simp only [generate, bind_eq_ok_iff, pure_eq_ok_iff, liftError_eq_ok_iff, liftFault_eq_ok_iff,
    Prod.mk.injEq]
  exact ⟨_, (), accepted, columns, laidAcross, rows, laidDown, _, windows_eq_ok across down, rfl, rfl⟩

/-- What is listed is not empty and lies in the image, from which each window can be cut out. -/
structure IsUsable (rects : List Rect) (image window : Size) : Prop where
  ne_nil : rects ≠ []
  size_eq : ∀ rect ∈ rects, rect.size = window
  within : ∀ rect ∈ rects, rect.within (.ofSize image) = true
  view_eq_ok : ∀ rect ∈ rects, ∀ (f : PixelFormat) (img : Image (Pixel f)), img.Reachable →
    img.size = image → ∃ v, img.view rect = .ok v ∧ v.size = window

theorem isUsable_lattice {columns rows : Axis} {image window : Size} {stepX stepY : UInt32}
    (across : columns.IsLayoutOf image.width window.width stepX)
    (down : rows.IsLayoutOf image.height window.height stepY) :
    IsUsable (lattice columns rows window) image window := by
  have listed (rect) (member : rect ∈ lattice columns rows window) :
      rect.size = window ∧ rect.within (.ofSize image) = true := by
    obtain ⟨row, inRows, column, inColumns, rfl⟩ := (mem_lattice _ _ _ rect).mp member
    exact ⟨rfl, windowAt_within across down row column inRows inColumns⟩
  refine ⟨?_, fun rect member => (listed rect member).1, fun rect member => (listed rect member).2,
    fun rect member f img reachable same => ?_⟩
  · -- Each axis has a window.
    apply List.ne_nil_of_length_pos
    rw [length_lattice]
    exact Nat.mul_pos across.count_pos down.count_pos
  · -- The bounds test of a view is the containment that the list was made for.
    obtain ⟨size, inside⟩ := listed rect member
    subst same
    obtain ⟨v, cut, shown, -⟩ :=
      img.asView.subView_of_contains reachable.wellFormed.asView rect inside
    exact ⟨v, cut, shown.trans size⟩

/-- A grid exists exactly if its requirements are met, and otherwise the first that is not met is
reported: no layout faults. The windows of a grid lie in the image, and each can be cut out of every
image of the size. -/
theorem generate_total (image window : Size) (overlap : Double) :
    ((∃ grid, generate image window overlap = .ok grid) ↔
      ∀ r ∈ requirements image window overlap, r.met) ∧
    (∀ failure, generate image window overlap = .error failure ↔
      ∃ refusal, FirstUnmet (requirements image window overlap) refusal ∧
        failure = .error refusal) ∧
    ∀ rects records, generate image window overlap = .ok (rects, records) →
      IsUsable rects image window := by
  -- The checks decide: what they accept is generated, and what they refuse is not.
  cases checked : check image window overlap with
  | error refusal =>
    have refused := generate_of_refused image window overlap refusal checked
    have unmet := (check_eq_error_iff image window overlap refusal).mp checked
    refine ⟨⟨?_, fun met => ?_⟩, fun failure => ⟨?_, ?_⟩, ?_⟩
    · rintro ⟨grid, returned⟩
      simp [refused] at returned
    · exact absurd unmet ((forall_met_iff _).mp met refusal)
    · intro failed
      exact ⟨refusal, unmet, (Except.error.inj (refused.symm.trans failed)).symm⟩
    · rintro ⟨other, reported, rfl⟩
      have same := checked.symm.trans ((check_eq_error_iff image window overlap other).mpr reported)
      rw [refused, Except.error.inj same]
    · intro rects records returned
      simp [refused] at returned
  | ok =>
    have met := (check_eq_ok_iff image window overlap).mp checked
    obtain ⟨columns, rows, across, down, told, generated⟩ :=
      generate_of_met image window overlap met
    refine ⟨⟨fun _ => met, fun _ => ⟨_, generated⟩⟩, fun failure => ⟨?_, ?_⟩, ?_⟩
    · intro failed
      simp [generated] at failed
    · rintro ⟨refusal, unmet, -⟩
      exact absurd unmet ((forall_met_iff _).mp met refusal)
    · intro rects records returned
      cases generated.symm.trans returned
      exact isUsable_lattice across down

/-- Three windows with a margin of one pixel on the left and two on the right, and a request that meets
none of the first three requirements. -/
theorem generate_total_halfOverlap :
    ∃ rects records, generate ⟨23, 10⟩ ⟨10, 10⟩ GridOptions.defaultOverlap = .ok (rects, records) ∧
      rects.map Rect.origin = [⟨1, 0⟩, ⟨6, 0⟩, ⟨11, 0⟩] ∧ IsUsable rects ⟨23, 10⟩ ⟨10, 10⟩ ∧
      generate ⟨0, 10⟩ ⟨0, 10⟩ Binary.invalid = .error (.error (.emptyImage ⟨0, 10⟩)) := by
  obtain ⟨rects, records, generated, origins⟩ : ∃ rects records,
      generate ⟨23, 10⟩ ⟨10, 10⟩ GridOptions.defaultOverlap = .ok (rects, records) ∧
        rects.map Rect.origin = [⟨1, 0⟩, ⟨6, 0⟩, ⟨11, 0⟩] := ⟨_, _, rfl, rfl⟩
  refine ⟨rects, records, generated, origins, (generate_total _ _ _).2.2 rects records generated, ?_⟩
  apply ((generate_total _ _ _).2.1 _).mpr
  exact ⟨_, ⟨[], _, _, rfl, by simp, by simp, rfl⟩, rfl⟩

end Grid

end Raster
