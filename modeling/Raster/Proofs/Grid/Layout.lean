import Raster.Grid
import Raster.Proofs.View.Window

/-!
# The layout of a grid

Every step of a layout is checked against the range of coordinates. If the window has an extent and
fits into the image, and the step is positive, no check fails: the steps are exact arithmetic on
naturals. The last window of an axis ends where the image does or before, and all others start
before it.
-/

namespace Raster

/-! ### Checked arithmetic -/

namespace Coordinate

theorem exists_toNat (n : Nat) (small : n < UInt32.size) : ∃ c : UInt32, c.toNat = n :=
  ⟨UInt32.ofNat n, UInt32.toNat_ofNat_of_lt' small⟩

theorem add_eq_ok_iff (a b c : UInt32) :
    Coordinate.add a b = .ok c ↔ c.toNat = a.toNat + b.toNat := by
  unfold Coordinate.add
  split
  next small =>
    rw [Except.ok.injEq, ← UInt32.toNat_inj, UInt32.toNat_add, Nat.mod_eq_of_lt small]
    exact eq_comm
  next large =>
    refine ⟨nofun, fun sum => ?_⟩
    exact absurd (sum ▸ c.toNat_lt) large

theorem sub_eq_ok_iff (a b c : UInt32) :
    Coordinate.sub a b = .ok c ↔ c.toNat + b.toNat = a.toNat := by
  unfold Coordinate.sub
  split
  next fits =>
    have below : b.toNat ≤ a.toNat := UInt32.le_iff_toNat_le.mp fits
    rw [Except.ok.injEq, ← UInt32.toNat_inj, UInt32.toNat_sub_of_le a b fits]
    omega
  next large =>
    rw [UInt32.le_iff_toNat_le] at large
    refine ⟨nofun, fun sum => ?_⟩
    omega

theorem mul_eq_ok_iff (a b c : UInt32) :
    Coordinate.mul a b = .ok c ↔ c.toNat = a.toNat * b.toNat := by
  unfold Coordinate.mul
  split
  next small =>
    rw [Except.ok.injEq, ← UInt32.toNat_inj, UInt32.toNat_mul, Nat.mod_eq_of_lt small]
    exact eq_comm
  next large =>
    refine ⟨nofun, fun product => ?_⟩
    exact absurd (product ▸ c.toNat_lt) large

theorem div_eq_ok_iff (a b c : UInt32) :
    Coordinate.div a b = .ok c ↔ 0 < b.toNat ∧ c.toNat = a.toNat / b.toNat := by
  unfold Coordinate.div
  split
  next zero =>
    subst zero
    simp
  next nonzero =>
    have positive : 0 < b.toNat := Nat.pos_of_ne_zero fun zero => nonzero (UInt32.toNat_inj.mp zero)
    rw [Except.ok.injEq, ← UInt32.toNat_inj, UInt32.toNat_div]
    simp [positive, eq_comm]

end Coordinate

namespace Grid

/-! ### One axis -/

namespace Axis

/-- A window fits, the axis has as many of them at distances of one step as the extent has room for,
and half of the rest lies before the first. -/
structure IsLayoutOf (axis : Axis) (extent window step : UInt32) : Prop where
  window_le : window.toNat ≤ extent.toNat
  step_pos : 0 < step.toNat
  step_eq : axis.step = step
  count_eq : axis.count.toNat = 1 + (extent.toNat - window.toNat) / step.toNat
  offset_eq : axis.offset.toNat =
    (extent.toNat - window.toNat - (axis.count.toNat - 1) * step.toNat) / 2

/-- A window with an extent leaves less room than coordinates reach, so the count is one too. -/
theorem layout_eq_ok (extent window step : UInt32) (positiveWindow : 0 < window.toNat)
    (fits : window.toNat ≤ extent.toNat) (positiveStep : 0 < step.toNat) :
    ∃ axis, layout extent window step = .ok axis ∧ axis.IsLayoutOf extent window step := by
  have bound := extent.toNat_lt
  -- Each intermediate result fits into a coordinate. With these named, the checks are equations.
  obtain ⟨room, roomEq⟩ := Coordinate.exists_toNat (extent.toNat - window.toNat)
    (by simp only [UInt32.size]; omega)
  have quotientLe : room.toNat / step.toNat ≤ room.toNat := Nat.div_le_self _ _
  obtain ⟨quotient, quotientEq⟩ := Coordinate.exists_toNat (room.toNat / step.toNat)
    (Nat.lt_of_le_of_lt quotientLe room.toNat_lt)
  obtain ⟨count, countEq⟩ := Coordinate.exists_toNat (1 + quotient.toNat)
    (by simp only [UInt32.size]; omega)
  have usedLe : quotient.toNat * step.toNat ≤ room.toNat := by
    rw [quotientEq]
    exact Nat.div_mul_le_self _ _
  obtain ⟨used, usedEq⟩ := Coordinate.exists_toNat (step.toNat * quotient.toNat)
    (by rw [Nat.mul_comm]; exact Nat.lt_of_le_of_lt usedLe room.toNat_lt)
  obtain ⟨rest, restEq⟩ := Coordinate.exists_toNat (room.toNat - used.toNat)
    (Nat.lt_of_le_of_lt (Nat.sub_le _ _) room.toNat_lt)
  refine ⟨⟨count, rest / 2, step⟩, ?_, fits, positiveStep, rfl, ?_, ?_⟩
  · simp only [layout, bind_eq_ok_iff, pure_eq_ok_iff, Coordinate.add_eq_ok_iff,
      Coordinate.sub_eq_ok_iff, Coordinate.mul_eq_ok_iff, Coordinate.div_eq_ok_iff]
    refine ⟨room, by omega, quotient, ⟨positiveStep, quotientEq⟩, count, countEq, quotient, ?_, used,
      usedEq, rest, ?_, rfl⟩
    · rw [countEq]
      exact Nat.add_comm _ _
    · rw [Nat.mul_comm] at usedLe
      omega
  · rw [countEq, quotientEq, roomEq]
  · -- The room that the steps take is subtracted from the whole room, and half of the rest is left.
    rw [countEq, Nat.add_sub_cancel_left, ← roomEq, Nat.mul_comm, ← usedEq, ← restEq,
      UInt32.toNat_div]
    rfl

/-- Where the window of a number starts. -/
def origin (axis : Axis) (number : Nat) : UInt32 :=
  UInt32.ofNat (axis.offset.toNat + number * axis.step.toNat)

namespace IsLayoutOf

variable {axis : Axis} {extent window step : UInt32} (laidOut : axis.IsLayoutOf extent window step)
include laidOut

theorem count_pos : 0 < axis.count.toNat := by
  rw [laidOut.count_eq]
  exact Nat.lt_of_lt_of_le Nat.one_pos (Nat.le_add_right 1 _)

/-- Every window ends inside the extent. -/
theorem end_le (number : Nat) (exists_ : number < axis.count.toNat) :
    axis.offset.toNat + number * axis.step.toNat + window.toNat ≤ extent.toNat := by
  -- The last window is the one that ends last, and the steps up to it fit into the room.
  have last : number * step.toNat ≤ (axis.count.toNat - 1) * step.toNat :=
    Nat.mul_le_mul_right _ (by omega)
  have room : (axis.count.toNat - 1) * step.toNat ≤ extent.toNat - window.toNat := by
    rw [laidOut.count_eq, Nat.add_sub_cancel_left]
    exact Nat.div_mul_le_self _ _
  have offset := laidOut.offset_eq
  have fits := laidOut.window_le
  rw [laidOut.step_eq]
  omega

theorem toNat_origin (number : Nat) (exists_ : number < axis.count.toNat) :
    (axis.origin number).toNat = axis.offset.toNat + number * axis.step.toNat := by
  have inside := laidOut.end_le number exists_
  have bound := extent.toNat_lt
  apply UInt32.toNat_ofNat_of_lt'
  simp only [UInt32.size]
  omega

theorem start_eq_ok (number : Nat) (exists_ : number < axis.count.toNat) :
    axis.start (UInt32.ofNat number) = .ok (axis.origin number) := by
  have inside := laidOut.end_le number exists_
  have bound := extent.toNat_lt
  have numbered := Coordinate.toNat_ofNat number axis.count exists_
  -- Both the distance and the origin are below the end of the window.
  obtain ⟨distance, distanceEq⟩ := Coordinate.exists_toNat (number * axis.step.toNat)
    (by simp only [UInt32.size]; omega)
  simp only [start, bind_eq_ok_iff, Coordinate.mul_eq_ok_iff, Coordinate.add_eq_ok_iff]
  refine ⟨distance, ?_, ?_⟩
  · rw [distanceEq, numbered]
  · rw [laidOut.toNat_origin number exists_, distanceEq]

end IsLayoutOf

end Axis

/-! ### All windows -/

/-- The window in a row and a column. -/
def windowAt (columns rows : Axis) (window : Size) (row column : Nat) : Rect :=
  ⟨⟨columns.origin column, rows.origin row⟩, window⟩

/-- All windows, row by row. -/
def lattice (columns rows : Axis) (window : Size) : List Rect :=
  (List.range rows.count.toNat).flatMap fun row =>
    (List.range columns.count.toNat).map (windowAt columns rows window row)

theorem mem_lattice (columns rows : Axis) (window : Size) (rect : Rect) :
    rect ∈ lattice columns rows window ↔ ∃ row < rows.count.toNat, ∃ column < columns.count.toNat,
      windowAt columns rows window row column = rect := by
  simp only [lattice, List.mem_flatMap, List.mem_map, List.mem_range]

theorem length_lattice (columns rows : Axis) (window : Size) :
    (lattice columns rows window).length = columns.count.toNat * rows.count.toNat :=
  RowMajor.length_rows _ _ _

section

variable {columns rows : Axis} {image window : Size} {stepX stepY : UInt32}
  (across : columns.IsLayoutOf image.width window.width stepX)
  (down : rows.IsLayoutOf image.height window.height stepY)
include across down

/-- No origin leaves the range of coordinates. -/
theorem windows_eq_ok : windows columns rows window = .ok (lattice columns rows window) := by
  -- The windows are made row by row, and the rows are joined afterwards.
  have lines : (rows.numbers.mapM fun r => columns.numbers.mapM fun c => do
        let x ← columns.start c
        let y ← rows.start r
        return (⟨⟨x, y⟩, window⟩ : Rect)) =
      .ok ((List.range rows.count.toNat).map fun row =>
        (List.range columns.count.toNat).map (windowAt columns rows window row)) := by
    apply mapM_map_eq_ok
    intro row inRows
    apply mapM_map_eq_ok
    intro column inColumns
    simp only [across.start_eq_ok column (List.mem_range.mp inColumns),
      down.start_eq_ok row (List.mem_range.mp inRows)]
    rfl
  unfold windows lattice
  rw [lines, List.flatMap_def]
  rfl

/-- A window of the grid lies inside the image. -/
theorem windowAt_within (row column : Nat) (inRows : row < rows.count.toNat)
    (inColumns : column < columns.count.toNat) :
    (windowAt columns rows window row column).within (.ofSize image) = true := by
  have right := across.end_le column inColumns
  have top := down.end_le row inRows
  apply (Rect.ofSize_contains_iff image _).mpr
  simp only [windowAt, across.toNat_origin column inColumns, down.toNat_origin row inRows]
  exact ⟨right, top⟩

end

end Grid

end Raster
