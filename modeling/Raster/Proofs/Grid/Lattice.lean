import Raster.Proofs.Grid.Requirements

/-!
# The lattice of a grid

The windows of a grid stand on a lattice. Along each axis neighbours are one step apart, there are as
many windows as the extent has room for, and the margin that is left is divided evenly between both
ends. The windows are listed row by row, so no two of them start at the same point.
-/

namespace Raster

/-- The order of rows, and from left to right in a row. -/
def Point.Precedes (p q : Point) : Prop :=
  p.y < q.y ∨ (p.y = q.y ∧ p.x < q.x)

theorem Point.not_precedes_self (p : Point) : ¬p.Precedes p := by
  simp [Precedes]

namespace Grid

/-! ### Along an axis -/

/-- Windows one step apart along an extent, with a margin before the first and one after the last. -/
structure IsCentred (extent window step count before after : Nat) : Prop where
  count_eq : count = 1 + (extent - window) / step
  /-- The margin, the steps to the last window, this window and the other margin. -/
  extent_eq : before + (count - 1) * step + window + after = extent
  /-- Of an odd number of pixels the last one is left after the windows. -/
  after_eq : after = before ∨ after = before + 1
  margins_lt : before + after < step
  /-- Wherever windows that are one step apart start, no more of them fit. -/
  maximal : ∀ start number, start + number * step + window ≤ extent → number < count

namespace Axis

/-- How many pixels are left after the last window. -/
def remainder (axis : Axis) (extent window : UInt32) : Nat :=
  extent.toNat - window.toNat - (axis.count.toNat - 1) * axis.step.toNat - axis.offset.toNat

namespace IsLayoutOf

variable {axis : Axis} {extent window step : UInt32} (laidOut : axis.IsLayoutOf extent window step)
include laidOut

theorem isCentred :
    IsCentred extent.toNat window.toNat step.toNat axis.count.toNat axis.offset.toNat
      (axis.remainder extent window) := by
  have fits := laidOut.window_le
  have positive := laidOut.step_pos
  have offset := laidOut.offset_eq
  have steps : axis.count.toNat - 1 = (extent.toNat - window.toNat) / step.toNat := by
    rw [laidOut.count_eq, Nat.add_sub_cancel_left]
  -- The steps take a multiple of the step out of the room, and less than a step is left.
  have used : (axis.count.toNat - 1) * step.toNat ≤ extent.toNat - window.toNat := by
    rw [steps]
    exact Nat.div_mul_le_self _ _
  have rest : extent.toNat - window.toNat - (axis.count.toNat - 1) * step.toNat < step.toNat := by
    rw [steps, ← Nat.mod_eq_sub_div_mul]
    exact Nat.mod_lt _ positive
  have after : axis.remainder extent window = extent.toNat - window.toNat -
      (axis.count.toNat - 1) * step.toNat - axis.offset.toNat := by
    rw [remainder, laidOut.step_eq]
  refine ⟨laidOut.count_eq, by omega, by omega, by omega, fun start number inside => ?_⟩
  have room : number * step.toNat ≤ extent.toNat - window.toNat := by omega
  have most := (Nat.le_div_iff_mul_le positive).mpr room
  rw [laidOut.count_eq]
  omega

theorem origin_lt_origin (number next : Nat) (before : number < next)
    (exists_ : next < axis.count.toNat) : axis.origin number < axis.origin next := by
  have step : number * axis.step.toNat < next * axis.step.toNat := by
    apply Nat.mul_lt_mul_of_pos_right before
    rw [laidOut.step_eq]
    exact laidOut.step_pos
  rw [UInt32.lt_iff_toNat_lt, laidOut.toNat_origin number (Nat.lt_trans before exists_),
    laidOut.toNat_origin next exists_]
  omega

end IsLayoutOf

end Axis

/-! ### In the plane -/

/-- The windows are listed row by row, and the neighbours of a window are one step apart from it. -/
structure IsRowMajor (rects : List Rect) (window : Size)
    (columns rows stepX stepY left bottom : Nat) : Prop where
  length_eq : rects.length = columns * rows
  window_at : ∀ row < rows, ∀ column < columns, ∃ rect, rects[row * columns + column]? = some rect ∧
    rect.size = window ∧ rect.origin.x.toNat = left + column * stepX ∧
    rect.origin.y.toNat = bottom + row * stepY
  ordered : rects.Pairwise fun rect next => rect.origin.Precedes next.origin
  nodup : rects.Nodup

/-- The windows stand in full rows and columns that are centred in the image. -/
def IsCentredLattice (rects : List Rect) (image window : Size) (stepX stepY : Nat) : Prop :=
  ∃ columns rows left right bottom top,
    IsCentred image.width.toNat window.width.toNat stepX columns left right ∧
    IsCentred image.height.toNat window.height.toNat stepY rows bottom top ∧
    IsRowMajor rects window columns rows stepX stepY left bottom

theorem getElem?_lattice (columns rows : Axis) (window : Size) (row column : Nat)
    (inRows : row < rows.count.toNat) (inColumns : column < columns.count.toNat) :
    (lattice columns rows window)[row * columns.count.toNat + column]? =
      some (windowAt columns rows window row column) := by
  have listed := RowMajor.index_lt column row _ _ inColumns inRows
  rw [lattice, RowMajor.getElem?_rows _ _ _ _ listed, RowMajor.div_index _ _ _ inColumns,
    RowMajor.mod_index _ _ _ inColumns]

section

variable {columns rows : Axis} {image window : Size} {stepX stepY : UInt32}
  (across : columns.IsLayoutOf image.width window.width stepX)
  (down : rows.IsLayoutOf image.height window.height stepY)
include across down

theorem lattice_ordered :
    (lattice columns rows window).Pairwise fun rect next => rect.origin.Precedes next.origin := by
  apply List.pairwise_flatMap.mpr
  constructor
  · -- In a row the columns ascend.
    intro row _
    rw [List.pairwise_map]
    apply List.pairwise_lt_range.imp_of_mem
    intro column next _ inColumns before
    exact .inr ⟨rfl, across.origin_lt_origin column next before (List.mem_range.mp inColumns)⟩
  · -- Whatever the columns, a window of an earlier row comes first.
    apply List.pairwise_lt_range.imp_of_mem
    intro row next _ inRows before rect member other memberNext
    obtain ⟨column, -, rfl⟩ := List.mem_map.mp member
    obtain ⟨otherColumn, -, rfl⟩ := List.mem_map.mp memberNext
    exact .inl (down.origin_lt_origin row next before (List.mem_range.mp inRows))

theorem lattice_isRowMajor :
    IsRowMajor (lattice columns rows window) window columns.count.toNat rows.count.toNat stepX.toNat
      stepY.toNat columns.offset.toNat rows.offset.toNat where
  length_eq := length_lattice columns rows window
  window_at row inRows column inColumns := by
    refine ⟨_, getElem?_lattice columns rows window row column inRows inColumns, rfl, ?_, ?_⟩
    · rw [← across.step_eq]
      exact across.toNat_origin column inColumns
    · rw [← down.step_eq]
      exact down.toNat_origin row inRows
  ordered := lattice_ordered across down
  nodup := by
    apply (lattice_ordered across down).imp
    rintro rect _ precedes rfl
    exact rect.origin.not_precedes_self precedes

theorem lattice_isCentredLattice :
    IsCentredLattice (lattice columns rows window) image window stepX.toNat stepY.toNat :=
  ⟨_, _, _, _, _, _, across.isCentred, down.isCentred, lattice_isRowMajor across down⟩

end

/-! ### Grids -/

theorem met_of_generate (image window : Size) (overlap : Double) (grid : List Rect × List LogRecord)
    (generated : generate image window overlap = .ok grid) :
    ∀ r ∈ requirements image window overlap, r.met := by
  cases checked : check image window overlap with
  | error refusal =>
    rw [generate_of_refused image window overlap refusal checked] at generated
    cases generated
  | ok => exact (check_eq_ok_iff image window overlap).mp checked

/-- What is generated is the lattice of two layouts whose steps are the shares of the window. -/
theorem lattice_of_generate (image window : Size) (overlap : Double) (rects : List Rect)
    (records : List LogRecord) (generated : generate image window overlap = .ok (rects, records)) :
    IsFraction overlap ∧ ∃ columns rows : Axis, ∃ stepX stepY : UInt32,
      columns.IsLayoutOf image.width window.width stepX ∧
      rows.IsLayoutOf image.height window.height stepY ∧
      stepX.toNat = share window.width overlap ∧ stepY.toNat = share window.height overlap ∧
      rects = lattice columns rows window := by
  have met := met_of_generate image window overlap _ generated
  obtain ⟨columns, rows, across, down, told, listed⟩ := generate_of_met image window overlap met
  simp only [requirements, List.forall_mem_cons] at met
  obtain ⟨-, -, fraction, -⟩ := met
  cases generated.symm.trans listed
  exact ⟨fraction, columns, rows, _, _, across, down, toNat_step _ _ fraction,
    toNat_step _ _ fraction, rfl⟩

/-- The windows of a grid stand on a lattice whose steps are the integer parts of the shares. It has
as many windows as fit and is centred: of the two margins along an axis the one after the windows is
the larger by at most one pixel, and both together are smaller than the step. -/
theorem generate_isCentredLattice (image window : Size) (overlap : Double) (rects : List Rect)
    (records : List LogRecord) (generated : generate image window overlap = .ok (rects, records)) :
    IsCentredLattice rects image window (share window.width overlap)
      (share window.height overlap) := by
  obtain ⟨-, columns, rows, stepX, stepY, across, down, shareX, shareY, rfl⟩ :=
    lattice_of_generate image window overlap rects records generated
  rw [← shareX, ← shareY]
  exact lattice_isCentredLattice across down

/-- Three columns and two rows. Three pixels are left across, one before and two after the windows,
and one is left after the rows. -/
theorem generate_isCentredLattice_sixWindows :
    ∃ rects records, generate ⟨23, 16⟩ ⟨10, 10⟩ GridOptions.defaultOverlap = .ok (rects, records) ∧
      rects.map Rect.origin = [⟨1, 0⟩, ⟨6, 0⟩, ⟨11, 0⟩, ⟨1, 5⟩, ⟨6, 5⟩, ⟨11, 5⟩] ∧
      IsCentredLattice rects ⟨23, 16⟩ ⟨10, 10⟩ 5 5 := by
  obtain ⟨rects, records, generated, origins⟩ : ∃ rects records,
      generate ⟨23, 16⟩ ⟨10, 10⟩ GridOptions.defaultOverlap = .ok (rects, records) ∧
        rects.map Rect.origin = [⟨1, 0⟩, ⟨6, 0⟩, ⟨11, 0⟩, ⟨1, 5⟩, ⟨6, 5⟩, ⟨11, 5⟩] :=
    ⟨_, _, rfl, rfl⟩
  have half : IsFraction GridOptions.defaultOverlap := (isFraction_iff _).mp rfl
  have share_ : share 10 GridOptions.defaultOverlap = 5 := (toNat_step 10 _ half).symm
  refine ⟨rects, records, generated, origins, ?_⟩
  rw [← share_]
  exact generate_isCentredLattice ⟨23, 16⟩ ⟨10, 10⟩ _ rects records generated

end Grid

end Raster
