import Raster.Geometry

/-!
# The pixels of rectangles

A rectangle covers the pixels from its origin on, as many as its size tells. Coordinates are naturals
here, so the far corner of a rectangle need not be one that a coordinate can hold.
-/

namespace Raster.Rect

/-- The pixel in column `x` of row `y` lies in the rectangle. -/
def Covers (r : Rect) (x y : Nat) : Prop :=
  (r.origin.x.toNat ≤ x ∧ x < r.origin.x.toNat + r.size.width.toNat) ∧
    r.origin.y.toNat ≤ y ∧ y < r.origin.y.toNat + r.size.height.toNat

instance (r : Rect) (x y : Nat) : Decidable (r.Covers x y) :=
  inferInstanceAs (Decidable (_ ∧ _))

/-- No pixel lies in both. -/
def Disjoint (r s : Rect) : Prop :=
  ∀ x y, ¬(r.Covers x y ∧ s.Covers x y)

/-- Rectangles of which no pixel is covered twice are disjoint from each other. -/
theorem pairwise_disjoint_of_countP_le (rects : List Rect)
    (once : ∀ x y, rects.countP (fun rect => rect.Covers x y) ≤ 1) : rects.Pairwise Disjoint := by
  induction rects with
  | nil => exact .nil
  | cons rect rest ih =>
    refine .cons (fun other member x y covered => ?_) (ih fun x y => ?_)
    · -- A pixel in the first rectangle and in another one is counted for both.
      have counted := once x y
      rw [List.countP_cons_of_pos (by simpa using covered.1)] at counted
      have again : 0 < rest.countP fun rect => rect.Covers x y :=
        List.countP_pos_iff.mpr ⟨other, member, by simpa using covered.2⟩
      omega
    · exact Nat.le_trans (List.sublist_cons_self rect rest).countP_le (once x y)

end Raster.Rect
