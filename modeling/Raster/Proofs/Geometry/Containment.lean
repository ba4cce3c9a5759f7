import Mathlib.Data.Set.Prod
import Mathlib.Order.Interval.Set.Basic
import Mathlib.Order.Interval.Set.LinearOrder
import Raster.Proofs.Geometry.Pixels

/-!
# Containment of rectangles

Containment compares origins and far corners, all in exact sums, so it is a partial order on all
rectangles, also on those that reach beyond the last coordinate. On rectangles with pixels it is
inclusion of the sets of pixels. A rectangle without pixels has the empty set wherever it lies, and
is contained where both its corners are.
-/

namespace Raster.Rect

/-! ### Corners and pixels -/

/-- The origin, as a point of the plane of naturals. -/
def nearCorner (r : Rect) : ℕ × ℕ :=
  (r.origin.x.toNat, r.origin.y.toNat)

/-- The corner opposite to the origin, which need not be one that coordinates can hold. -/
def farCorner (r : Rect) : ℕ × ℕ :=
  (r.origin.x.toNat + r.size.width.toNat, r.origin.y.toNat + r.size.height.toNat)

theorem nearCorner_le_farCorner (r : Rect) : r.nearCorner ≤ r.farCorner :=
  ⟨Nat.le_add_right _ _, Nat.le_add_right _ _⟩

/-- The columns and rows of the pixels that the rectangle covers. -/
def pixels (r : Rect) : Set (ℕ × ℕ) :=
  {p | r.Covers p.1 p.2}

theorem pixels_eq_prod (r : Rect) :
    r.pixels = Set.Ico r.nearCorner.1 r.farCorner.1 ×ˢ Set.Ico r.nearCorner.2 r.farCorner.2 :=
  rfl

theorem nonempty_pixels_iff (r : Rect) : r.pixels.Nonempty ↔ r.area ≠ 0 := by
  rw [pixels_eq_prod, Set.prod_nonempty_iff, Set.nonempty_Ico, Set.nonempty_Ico, area, Size.area,
    Nat.mul_ne_zero_iff]
  simp only [nearCorner, farCorner]
  omega

/-! ### Containment by corners -/

theorem contains_iff (outer inner : Rect) :
    outer.contains inner = true ↔
      outer.nearCorner ≤ inner.nearCorner ∧ inner.farCorner ≤ outer.farCorner := by
  simp only [contains, nearCorner, farCorner, Bool.and_eq_true, decide_eq_true_eq, Prod.mk_le_mk]
  omega

/-- The corners of a rectangle determine it. -/
theorem eq_of_corners_eq {r s : Rect} (near : r.nearCorner = s.nearCorner)
    (far : r.farCorner = s.farCorner) : r = s := by
  obtain ⟨⟨x, y⟩, ⟨width, height⟩⟩ := r
  obtain ⟨⟨x', y'⟩, ⟨width', height'⟩⟩ := s
  simp only [nearCorner, farCorner, Prod.mk.injEq, UInt32.toNat_inj] at near far
  obtain ⟨rfl, rfl⟩ := near
  -- Origins agree, so the extents that the far corners are apart from them do too.
  simpa only [Nat.add_left_cancel_iff, UInt32.toNat_inj, Rect.mk.injEq, Size.mk.injEq, true_and]
    using far

theorem contains_refl (r : Rect) : r.contains r = true :=
  (contains_iff r r).mpr ⟨le_refl _, le_refl _⟩

theorem contains_trans {a b c : Rect} (ab : a.contains b = true) (bc : b.contains c = true) :
    a.contains c = true := by
  rw [contains_iff] at *
  exact ⟨ab.1.trans bc.1, bc.2.trans ab.2⟩

theorem contains_antisymm {a b : Rect} (ab : a.contains b = true) (ba : b.contains a = true) :
    a = b := by
  rw [contains_iff] at ab ba
  exact eq_of_corners_eq (ab.1.antisymm ba.1) (ba.2.antisymm ab.2)

/-- What is contained has both corners between those of the other, and conversely. -/
theorem contains_iff_mem_Icc (outer inner : Rect) :
    outer.contains inner = true ↔
      inner.nearCorner ∈ Set.Icc outer.nearCorner outer.farCorner ∧
        inner.farCorner ∈ Set.Icc outer.nearCorner outer.farCorner := by
  rw [contains_iff]
  constructor
  · rintro ⟨near, far⟩
    have ordered := inner.nearCorner_le_farCorner
    exact ⟨⟨near, ordered.trans far⟩, near.trans ordered, far⟩
  · rintro ⟨⟨near, -⟩, -, far⟩
    exact ⟨near, far⟩

/-! ### Containment by pixels -/

/-- Along each axis, the first and the last pixel of a rectangle that has pixels are those that
decide. -/
theorem contains_iff_pixels_subset (outer inner : Rect) (nonempty : inner.area ≠ 0) :
    outer.contains inner = true ↔ inner.pixels ⊆ outer.pixels := by
  have pixels := (nonempty_pixels_iff inner).mpr nonempty
  rw [pixels_eq_prod] at pixels
  obtain ⟨columns, rows⟩ := Set.prod_nonempty_iff.mp pixels
  rw [pixels_eq_prod, pixels_eq_prod, Set.prod_subset_prod_iff' pixels,
    Set.Ico_subset_Ico_iff (Set.nonempty_Ico.mp columns),
    Set.Ico_subset_Ico_iff (Set.nonempty_Ico.mp rows), contains_iff, Prod.le_def, Prod.le_def]
  exact and_and_and_comm

/-- Containment is a partial order on all rectangles. Whatever has pixels is contained in what covers
them all, and whatever has none where its corners are, edges included. -/
theorem contains_isPartialOrder :
    (∀ r : Rect, r.contains r = true) ∧
    (∀ a b c : Rect, a.contains b = true → b.contains c = true → a.contains c = true) ∧
    (∀ a b : Rect, a.contains b = true → b.contains a = true → a = b) ∧
    (∀ a b : Rect, a.within b = b.contains a) ∧
    (∀ outer inner : Rect, inner.area ≠ 0 →
      (outer.contains inner = true ↔ ∀ x y, inner.Covers x y → outer.Covers x y)) ∧
    ∀ outer inner : Rect, inner.area = 0 →
      (outer.contains inner = true ↔
        inner.nearCorner ∈ Set.Icc outer.nearCorner outer.farCorner ∧
          inner.farCorner ∈ Set.Icc outer.nearCorner outer.farCorner) := by
  refine ⟨contains_refl, fun a b c => contains_trans, fun a b => contains_antisymm,
    fun a b => rfl, fun outer inner nonempty => ?_,
    fun outer inner _ => contains_iff_mem_Icc outer inner⟩
  rw [contains_iff_pixels_subset outer inner nonempty]
  exact Prod.forall

/-- A rectangle that reaches two pixels beyond the last coordinate, the end of its upper row, and the
first pixel of that. Of two rectangles without pixels one lies on the upper edge, and one above it,
where covering nothing is not enough. -/
theorem contains_isPartialOrder_beyond :
    let outer : Rect := ⟨⟨4294967294, 0⟩, ⟨4, 2⟩⟩
    let inner : Rect := ⟨⟨4294967295, 1⟩, ⟨3, 1⟩⟩
    let edge : Rect := ⟨⟨4294967295, 2⟩, ⟨3, 0⟩⟩
    let above : Rect := ⟨⟨4294967295, 3⟩, ⟨3, 0⟩⟩
    let tip : Rect := ⟨⟨4294967295, 1⟩, ⟨1, 1⟩⟩
    inner.area ≠ 0 ∧ inner.Covers 4294967297 1 ∧
      (∀ x y, inner.Covers x y → outer.Covers x y) ∧ ¬inner.contains outer = true ∧
      outer.contains tip = true ∧
      edge.area = 0 ∧ outer.contains edge = true ∧
      above.area = 0 ∧ (∀ x y, above.Covers x y → outer.Covers x y) ∧
      ¬outer.contains above = true := by
  intro outer inner edge above tip
  obtain ⟨-, trans, antisymm, -, covers, empty⟩ := contains_isPartialOrder
  have inside : outer.contains inner = true := by decide
  refine ⟨by decide, by decide, (covers outer inner (by decide)).mp inside, fun back => ?_,
    trans outer inner tip inside (by decide), by decide,
    (empty outer edge (by decide)).mpr (by decide), by decide, fun x y covered => ?_, by decide⟩
  · exact absurd (antisymm outer inner inside back) (by decide)
  · -- No row is at or above the third and below it.
    obtain ⟨-, bottom, top⟩ := covered
    exact absurd top (Nat.not_lt.mpr bottom)

end Raster.Rect
