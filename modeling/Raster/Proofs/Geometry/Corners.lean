import Raster.Proofs.Geometry.Containment
import Raster.Proofs.Grid.Lattice
import Raster.Proofs.View.Nesting

/-!
# Corners that coordinates can hold

The corners of a rectangle and its centre are sums of coordinates, and a sum that is too large is a
fault. A rectangle that lies in the bounds of an image has all of them, since no sum exceeds the
bounds. What a view cuts out and what a grid is made of are such rectangles, also if they have no
pixels and lie on the far edge.
-/

namespace Raster

theorem Coordinate.add_eq_error_iff (a b : UInt32) (fault : Fault) :
    Coordinate.add a b = .error fault ↔
      fault = .additionOverflow ∧ UInt32.size ≤ a.toNat + b.toNat := by
  simp only [Coordinate.add]
  split <;> simp_all [eq_comm]

/-! ### Points of the plane -/

def Point.coordinates (p : Point) : ℕ × ℕ :=
  (p.x.toNat, p.y.toNat)

def Size.extents (s : Size) : ℕ × ℕ :=
  (s.width.toNat, s.height.toNat)

/-- The point with these coordinates, or the fault that a coordinate cannot hold one of them. -/
structure IsPointAt (computed : Except Fault Point) (x y : Nat) : Prop where
  eq_ok_iff : ∀ p, computed = .ok p ↔ p.coordinates = (x, y)
  eq_error_iff : ∀ fault, computed = .error fault ↔
    fault = .additionOverflow ∧ (UInt32.size ≤ x ∨ UInt32.size ≤ y)

namespace IsPointAt

variable {computed : Except Fault Point} {x y : Nat}

theorem faults_iff (isPoint : IsPointAt computed x y) :
    (∃ fault, computed = .error fault) ↔ UInt32.size ≤ x ∨ UInt32.size ≤ y := by
  simp [isPoint.eq_error_iff]

theorem exists_ok (isPoint : IsPointAt computed x y) (smallX : x < UInt32.size)
    (smallY : y < UInt32.size) : ∃ p, computed = .ok p ∧ p.coordinates = (x, y) := by
  cases result : computed with
  | error fault =>
    have large := isPoint.faults_iff.mp ⟨fault, result⟩
    omega
  | ok p => exact ⟨p, rfl, (isPoint.eq_ok_iff p).mp result⟩

end IsPointAt

theorem Point.isPointAt_shift (p : Point) (dx dy : UInt32) :
    IsPointAt (p.shift dx dy) (p.x.toNat + dx.toNat) (p.y.toNat + dy.toNat) where
  eq_ok_iff q := by
    simp only [shift, bind_eq_ok_iff, pure_eq_ok_iff, Coordinate.add_eq_ok_iff, coordinates,
      Prod.mk.injEq]
    constructor
    · rintro ⟨x, sumX, y, sumY, rfl⟩
      exact ⟨sumX, sumY⟩
    · rintro ⟨sumX, sumY⟩
      exact ⟨q.x, sumX, q.y, sumY, rfl⟩
  eq_error_iff fault := by
    -- The sum of the columns is the first that can fault, and the sum of the rows faults alike.
    cases across : Coordinate.add p.x dx with
    | error first =>
      obtain ⟨rfl, large⟩ := (Coordinate.add_eq_error_iff p.x dx first).mp across
      simp [shift, across, large, bind, Except.bind, eq_comm]
    | ok x =>
      have smallX : ¬UInt32.size ≤ p.x.toNat + dx.toNat := by
        rw [← (Coordinate.add_eq_ok_iff p.x dx x).mp across]
        exact Nat.not_le.mpr x.toNat_lt
      cases upward : Coordinate.add p.y dy with
      | error second =>
        obtain ⟨rfl, large⟩ := (Coordinate.add_eq_error_iff p.y dy second).mp upward
        simp [shift, across, upward, large, bind, Except.bind, eq_comm]
      | ok y =>
        have smallY : ¬UInt32.size ≤ p.y.toNat + dy.toNat := by
          rw [← (Coordinate.add_eq_ok_iff p.y dy y).mp upward]
          exact Nat.not_le.mpr y.toNat_lt
        simp [shift, across, upward, smallX, smallY, bind, Except.bind, pure, Except.pure]

namespace Rect

/-! ### Corners as sums -/

variable (r : Rect)

theorem isPointAt_bottomRight :
    IsPointAt r.bottomRight (r.origin.x.toNat + r.size.width.toNat) r.origin.y.toNat :=
  r.origin.isPointAt_shift r.size.width 0

theorem isPointAt_topLeft :
    IsPointAt r.topLeft r.origin.x.toNat (r.origin.y.toNat + r.size.height.toNat) :=
  r.origin.isPointAt_shift 0 r.size.height

theorem isPointAt_topRight :
    IsPointAt r.topRight (r.origin.x.toNat + r.size.width.toNat)
      (r.origin.y.toNat + r.size.height.toNat) :=
  r.origin.isPointAt_shift r.size.width r.size.height

theorem isPointAt_midpoint :
    IsPointAt r.midpoint (r.origin.x.toNat + r.size.width.toNat / 2)
      (r.origin.y.toNat + r.size.height.toNat / 2) := by
  have shifted := r.origin.isPointAt_shift (r.size.width / 2) (r.size.height / 2)
  rwa [UInt32.toNat_div, UInt32.toNat_div] at shifted

/-- Each corner faults exactly if a sum that it takes exceeds the last coordinate, and the centre has no
fault that the far corner does not have. -/
structure FaultsOnOverflow (r : Rect) : Prop where
  bottomRight_iff : (∃ fault, r.bottomRight = .error fault) ↔
    UInt32.size - 1 < r.origin.x.toNat + r.size.width.toNat
  topLeft_iff : (∃ fault, r.topLeft = .error fault) ↔
    UInt32.size - 1 < r.origin.y.toNat + r.size.height.toNat
  topRight_iff : (∃ fault, r.topRight = .error fault) ↔
    UInt32.size - 1 < r.origin.x.toNat + r.size.width.toNat ∨
      UInt32.size - 1 < r.origin.y.toNat + r.size.height.toNat
  midpoint_of_topRight : (∃ p, r.topRight = .ok p) → ∃ m, r.midpoint = .ok m

theorem faultsOnOverflow : r.FaultsOnOverflow where
  bottomRight_iff := by
    have small := r.origin.y.toNat_lt
    rw [r.isPointAt_bottomRight.faults_iff]
    simp only [UInt32.size]
    omega
  topLeft_iff := by
    have small := r.origin.x.toNat_lt
    rw [r.isPointAt_topLeft.faults_iff]
    simp only [UInt32.size]
    omega
  topRight_iff := by
    rw [r.isPointAt_topRight.faults_iff]
    simp only [UInt32.size]
    omega
  midpoint_of_topRight := by
    rintro ⟨p, computed⟩
    have sums := (r.isPointAt_topRight.eq_ok_iff p).mp computed
    simp only [Point.coordinates, Prod.mk.injEq] at sums
    have smallX := p.x.toNat_lt
    have smallY := p.y.toNat_lt
    obtain ⟨m, centre, -⟩ := r.isPointAt_midpoint.exists_ok (by simp only [UInt32.size]; omega)
      (by simp only [UInt32.size]; omega)
    exact ⟨m, centre⟩

/-! ### Corners in bounds -/

/-- All corners and the centre exist and lie in the bounds, edges included, and the centre lies between
the origin and the far corner. -/
structure HasCornersIn (r : Rect) (bounds : Size) : Prop where
  bottomLeft_le : r.bottomLeft.coordinates ≤ bounds.extents
  exists_bottomRight : ∃ p, r.bottomRight = .ok p ∧
    p.coordinates = (r.farCorner.1, r.nearCorner.2) ∧ p.coordinates ≤ bounds.extents
  exists_topLeft : ∃ p, r.topLeft = .ok p ∧
    p.coordinates = (r.nearCorner.1, r.farCorner.2) ∧ p.coordinates ≤ bounds.extents
  exists_topRight : ∃ p, r.topRight = .ok p ∧ p.coordinates = r.farCorner ∧
    p.coordinates ≤ bounds.extents
  exists_midpoint : ∃ m, r.midpoint = .ok m ∧ m.coordinates ≤ bounds.extents ∧
    m.coordinates ∈ Set.Icc r.nearCorner r.farCorner

theorem hasCornersIn_of_fitsIn (bounds : Size) (fits : r.FitsIn bounds) :
    r.HasCornersIn bounds := by
  obtain ⟨right, top⟩ := fits
  have left : r.origin.x.toNat ≤ bounds.width.toNat := Nat.le_of_add_right_le right
  have bottom : r.origin.y.toNat ≤ bounds.height.toNat := Nat.le_of_add_right_le top
  have boundX := bounds.width.toNat_lt
  have boundY := bounds.height.toNat_lt
  -- A point whose sums stay in the bounds exists and lies in them.
  have exists_ {computed : Except Fault Point} {x y : Nat} (isPoint : IsPointAt computed x y)
      (inX : x ≤ bounds.width.toNat) (inY : y ≤ bounds.height.toNat) :
      ∃ p, computed = .ok p ∧ p.coordinates = (x, y) ∧ p.coordinates ≤ bounds.extents := by
    obtain ⟨p, found, sums⟩ := isPoint.exists_ok (by simp only [UInt32.size]; omega)
      (by simp only [UInt32.size]; omega)
    exact ⟨p, found, sums, sums ▸ ⟨inX, inY⟩⟩
  refine ⟨⟨left, bottom⟩, exists_ r.isPointAt_bottomRight right bottom,
    exists_ r.isPointAt_topLeft left top, exists_ r.isPointAt_topRight right top, ?_⟩
  -- Half an extent is no more than the whole.
  obtain ⟨m, found, sums, inside⟩ := exists_ r.isPointAt_midpoint (by omega) (by omega)
  refine ⟨m, found, inside, ?_⟩
  simp only [sums, nearCorner, farCorner, Set.mem_Icc, Prod.mk_le_mk]
  omega

end Rect

/-- The windows of a grid fit into the image that it is made for. -/
theorem Grid.fitsIn_of_generate (image window : Size) (overlap : Double) (rects : List Rect)
    (records : List LogRecord) (generated : generate image window overlap = .ok (rects, records))
    (rect : Rect) (member : rect ∈ rects) : rect.FitsIn image := by
  obtain ⟨-, columns, rows, stepX, stepY, across, down, -, -, rfl⟩ :=
    lattice_of_generate image window overlap rects records generated
  obtain ⟨row, inRows, column, inColumns, rfl⟩ := (mem_lattice _ _ _ rect).mp member
  have inside := windowAt_within across down row column inRows inColumns
  exact (Rect.ofSize_contains_iff image _).mp inside

/-- A corner faults exactly if it does not fit into coordinates, and the corners of what views and images
cut out and of what grids consist of always do. -/
theorem Rect.corners_in_bounds :
    (∀ r : Rect, r.FaultsOnOverflow) ∧
    (∀ (α : Type) (v u : View α) (rect : Rect), v.subView rect = .ok u →
      rect.HasCornersIn v.size) ∧
    (∀ (α : Type) (img : Image α) (u : View α) (rect : Rect), img.view rect = .ok u →
      rect.HasCornersIn img.size) ∧
    ∀ (image window : Size) (overlap : Double) (rects : List Rect) (records : List LogRecord),
      Grid.generate image window overlap = .ok (rects, records) →
        ∀ rect ∈ rects, rect.HasCornersIn image := by
  refine ⟨faultsOnOverflow, fun α v u rect accepted => ?_, fun α img u rect accepted => ?_,
    fun image window overlap rects records generated rect member => ?_⟩
  · exact rect.hasCornersIn_of_fitsIn v.size (v.fitsIn_of_subView u rect accepted)
  · exact rect.hasCornersIn_of_fitsIn img.size (img.asView.fitsIn_of_subView u rect accepted)
  · exact rect.hasCornersIn_of_fitsIn image
      (Grid.fitsIn_of_generate image window overlap rects records generated rect member)

/-- A rectangle in the last column has no right corners, but its centre is there. The far corner of the
image, a rectangle without pixels, has all of them, and so has a window as wide as coordinates reach. -/
theorem Rect.corners_in_bounds_farthest :
    let last : Rect := ⟨⟨4294967295, 0⟩, ⟨1, 1⟩⟩
    let corner : Rect := ⟨⟨6, 4⟩, ⟨0, 0⟩⟩
    (∃ fault, last.topRight = .error fault) ∧ ¬(∃ fault, last.topLeft = .error fault) ∧
      (∃ m, last.midpoint = .ok m) ∧
      (∃ u, Image.ramp.view corner = .ok u ∧ corner.HasCornersIn ⟨6, 4⟩ ∧
        ∃ w, u.subView ⟨⟨0, 0⟩, ⟨0, 0⟩⟩ = .ok w ∧ Rect.HasCornersIn ⟨⟨0, 0⟩, ⟨0, 0⟩⟩ u.size) ∧
      ∃ rects records, Grid.generate ⟨4294967295, 2⟩ ⟨4294967295, 2⟩ GridOptions.defaultOverlap =
          .ok (rects, records) ∧ rects.map Rect.origin = [⟨0, 0⟩] ∧
        ∀ rect ∈ rects, rect.HasCornersIn ⟨4294967295, 2⟩ := by
  intro last corner
  obtain ⟨faults, views, images, grids⟩ := Rect.corners_in_bounds
  obtain ⟨u, w, cut, cutAgain⟩ : ∃ u w, Image.ramp.view corner = .ok u ∧
      u.subView ⟨⟨0, 0⟩, ⟨0, 0⟩⟩ = .ok w := ⟨_, _, rfl, rfl⟩
  obtain ⟨rects, records, generated, single⟩ : ∃ rects records,
      Grid.generate ⟨4294967295, 2⟩ ⟨4294967295, 2⟩ GridOptions.defaultOverlap =
        .ok (rects, records) ∧ rects.map Rect.origin = [⟨0, 0⟩] := ⟨_, _, rfl, rfl⟩
  obtain ⟨m, centre, -⟩ := last.isPointAt_midpoint.exists_ok (by decide) (by decide)
  refine ⟨(faults last).topRight_iff.mpr (by decide), ?_, ⟨m, centre⟩,
    ⟨u, cut, images _ Image.ramp u corner cut, w, cutAgain, views _ u w _ cutAgain⟩,
    rects, records, generated, single, grids _ _ _ rects records generated⟩
  exact (faults last).topLeft_iff.not.mpr (by decide)

end Raster
