import Mathlib.Algebra.Order.Floor.Div
import Mathlib.Data.List.Perm.Subperm
import Raster.Proofs.Geometry.Pixels
import Raster.Proofs.Grid.Lattice

/-!
# What a grid covers

A step is at most as long as a window, so along an axis each window reaches the start of the next one
and there are no gaps between the margins. How many windows reach over a coordinate is bounded by how
many steps a window spans. In the plane a window covers a pixel exactly if its column reaches over
the one coordinate and its row over the other, so both facts carry over.
-/

namespace Raster

/-- Where being counted is a matter of the row and of the column, the counts are multiplied. -/
theorem RowMajor.countP_rows {β : Type} (width height : Nat) (entry : Nat → Nat → β) (p : β → Bool)
    (inRow inColumn : Nat → Bool)
    (splits : ∀ y < height, ∀ x < width, p (entry y x) = (inRow y && inColumn x)) :
    ((List.range height).flatMap fun y => (List.range width).map (entry y)).countP p =
      (List.range height).countP inRow * (List.range width).countP inColumn := by
  induction height with
  | zero => simp
  | succ height ih =>
    have before := ih fun y row => splits y (Nat.lt_succ_of_lt row)
    -- The last row counts like the columns, or not at all.
    have last : ((List.range width).map (entry height)).countP p =
        (List.range width).countP fun x => inRow height && inColumn x := by
      rw [List.countP_map]
      apply List.countP_congr
      intro x column
      rw [Function.comp_apply, splits height (Nat.lt_succ_self _) x (List.mem_range.mp column)]
    rw [List.range_succ, List.flatMap_append, List.countP_append, List.countP_append, before,
      List.flatMap_singleton, last, Nat.add_mul]
    cases counted : inRow height <;> simp [counted]

namespace Grid

/-! ### Along an axis -/

/-- Of numbers that all lie in an interval there are no more than the interval is long. -/
theorem countP_range_le (p : Nat → Bool) (count first length : Nat)
    (inside : ∀ n, p n = true → first ≤ n ∧ n < first + length) :
    (List.range count).countP p ≤ length := by
  have within : (List.range count).filter p ⊆ List.range' first length := by
    intro n member
    exact List.mem_range'_1.mpr (inside n (List.mem_filter.mp member).2)
  have counted := ((List.nodup_range.filter p).subperm within).length_le
  rwa [List.length_range', ← List.countP_eq_length_filter] at counted

namespace Axis

/-- The window of a number reaches over a coordinate. -/
def Reaches (axis : Axis) (window : UInt32) (x number : Nat) : Prop :=
  axis.offset.toNat + number * axis.step.toNat ≤ x ∧
    x < axis.offset.toNat + number * axis.step.toNat + window.toNat

instance (axis : Axis) (window : UInt32) (x number : Nat) :
    Decidable (axis.Reaches window x number) :=
  inferInstanceAs (Decidable (_ ∧ _))

namespace IsLayoutOf

variable {axis : Axis} {extent window step : UInt32} (laidOut : axis.IsLayoutOf extent window step)
include laidOut

/-- The windows leave no gap between the margins. -/
theorem exists_reaches_iff (overlapping : step.toNat ≤ window.toNat) (x : Nat) :
    (∃ number < axis.count.toNat, axis.Reaches window x number) ↔
      axis.offset.toNat ≤ x ∧ x < extent.toNat - axis.remainder extent window := by
  have span := laidOut.isCentred.extent_eq
  have positive := laidOut.step_pos
  have nonempty := laidOut.count_pos
  unfold Reaches
  rw [laidOut.step_eq]
  constructor
  · rintro ⟨number, exists_, starts, ends⟩
    have last : number * step.toNat ≤ (axis.count.toNat - 1) * step.toNat :=
      Nat.mul_le_mul_right _ (by omega)
    omega
  · rintro ⟨starts, ends⟩
    -- The last window that starts before the coordinate is the one to take, if there are as many.
    have below : (x - axis.offset.toNat) / step.toNat * step.toNat ≤ x - axis.offset.toNat :=
      Nat.div_mul_le_self _ _
    by_cases exists_ : (x - axis.offset.toNat) / step.toNat < axis.count.toNat
    · have next : x - axis.offset.toNat < ((x - axis.offset.toNat) / step.toNat + 1) * step.toNat :=
        Nat.lt_mul_of_div_lt (Nat.lt_succ_self _) positive
      rw [Nat.succ_mul] at next
      exact ⟨_, exists_, by omega, by omega⟩
    · have last : (axis.count.toNat - 1) * step.toNat ≤
          (x - axis.offset.toNat) / step.toNat * step.toNat :=
        Nat.mul_le_mul_right _ (by omega)
      exact ⟨axis.count.toNat - 1, by omega, by omega, by omega⟩

/-- The windows over a coordinate are consecutive, and their starts lie less than a window apart. -/
theorem countP_reaches_le (x : Nat) :
    (List.range axis.count.toNat).countP (fun number => axis.Reaches window x number) ≤
      window.toNat ⌈/⌉ step.toNat := by
  have positive := laidOut.step_pos
  have spanned : window.toNat ≤ step.toNat * (window.toNat ⌈/⌉ step.toNat) :=
    le_smul_ceilDiv positive
  apply countP_range_le _ _
    ((x - axis.offset.toNat) / step.toNat + 1 - window.toNat ⌈/⌉ step.toNat)
  intro number reaches
  obtain ⟨starts, ends⟩ := of_decide_eq_true reaches
  rw [laidOut.step_eq] at starts ends
  have below : (x - axis.offset.toNat) / step.toNat * step.toNat ≤ x - axis.offset.toNat :=
    Nat.div_mul_le_self _ _
  have upper : number ≤ (x - axis.offset.toNat) / step.toNat :=
    (Nat.le_div_iff_mul_le positive).mpr (by omega)
  have lower : (x - axis.offset.toNat) / step.toNat < number + window.toNat ⌈/⌉ step.toNat := by
    apply Nat.lt_of_mul_lt_mul_left (a := step.toNat)
    rw [Nat.mul_add, Nat.mul_comm step.toNat number, Nat.mul_comm step.toNat (_ / _)]
    omega
  omega

end IsLayoutOf

end Axis

/-! ### In the plane -/

/-- What the windows of an image cover: all pixels between the margins, each a bounded number of
times, and each once if the windows touch. -/
structure CoversWithoutGaps (rects : List Rect) (image window : Size) (stepX stepY : Nat) : Prop where
  /-- The margins lie before the first window and after the last one. -/
  covers_iff : ∃ first last right top, rects.head? = some first ∧ rects.getLast? = some last ∧
    last.origin.x.toNat + window.width.toNat + right = image.width.toNat ∧
    last.origin.y.toNat + window.height.toNat + top = image.height.toNat ∧
    ∀ x y, (∃ rect ∈ rects, rect.Covers x y) ↔
      (first.origin.x.toNat ≤ x ∧ x < image.width.toNat - right) ∧
        first.origin.y.toNat ≤ y ∧ y < image.height.toNat - top
  countP_le : ∀ x y, rects.countP (fun rect => rect.Covers x y) ≤
    (window.width.toNat ⌈/⌉ stepX) * (window.height.toNat ⌈/⌉ stepY)
  partition : stepX = window.width.toNat → stepY = window.height.toNat →
    rects.Pairwise Rect.Disjoint ∧
      ∀ x y, (∃ rect ∈ rects, rect.Covers x y) → rects.countP (fun rect => rect.Covers x y) = 1

section

variable {columns rows : Axis} {image window : Size} {stepX stepY : UInt32}
  (across : columns.IsLayoutOf image.width window.width stepX)
  (down : rows.IsLayoutOf image.height window.height stepY)
include across down

theorem covers_windowAt_iff (row column : Nat) (inRows : row < rows.count.toNat)
    (inColumns : column < columns.count.toNat) (x y : Nat) :
    (windowAt columns rows window row column).Covers x y ↔
      columns.Reaches window.width x column ∧ rows.Reaches window.height y row := by
  simp only [Rect.Covers, windowAt, Axis.Reaches, across.toNat_origin column inColumns,
    down.toNat_origin row inRows]

theorem covered_lattice_iff (overlapX : stepX.toNat ≤ window.width.toNat)
    (overlapY : stepY.toNat ≤ window.height.toNat) (x y : Nat) :
    (∃ rect ∈ lattice columns rows window, rect.Covers x y) ↔
      (columns.offset.toNat ≤ x ∧
          x < image.width.toNat - columns.remainder image.width window.width) ∧
        rows.offset.toNat ≤ y ∧
          y < image.height.toNat - rows.remainder image.height window.height := by
  rw [← across.exists_reaches_iff overlapX, ← down.exists_reaches_iff overlapY]
  constructor
  · rintro ⟨rect, member, covers⟩
    obtain ⟨row, inRows, column, inColumns, rfl⟩ := (mem_lattice _ _ _ rect).mp member
    obtain ⟨reachesX, reachesY⟩ :=
      (covers_windowAt_iff across down row column inRows inColumns x y).mp covers
    exact ⟨⟨column, inColumns, reachesX⟩, row, inRows, reachesY⟩
  · rintro ⟨⟨column, inColumns, reachesX⟩, row, inRows, reachesY⟩
    exact ⟨_, (mem_lattice _ _ _ _).mpr ⟨row, inRows, column, inColumns, rfl⟩,
      (covers_windowAt_iff across down row column inRows inColumns x y).mpr ⟨reachesX, reachesY⟩⟩

theorem countP_lattice_le (x y : Nat) :
    (lattice columns rows window).countP (fun rect => rect.Covers x y) ≤
      (window.width.toNat ⌈/⌉ stepX.toNat) * (window.height.toNat ⌈/⌉ stepY.toNat) := by
  have counted : (lattice columns rows window).countP (fun rect => rect.Covers x y) =
      (List.range rows.count.toNat).countP (fun row => rows.Reaches window.height y row) *
        (List.range columns.count.toNat).countP
          (fun column => columns.Reaches window.width x column) := by
    apply RowMajor.countP_rows
    intro row inRows column inColumns
    rw [← Bool.decide_and, decide_eq_decide,
      covers_windowAt_iff across down row column inRows inColumns]
    exact and_comm
  rw [counted, Nat.mul_comm]
  exact Nat.mul_le_mul (across.countP_reaches_le x) (down.countP_reaches_le y)

theorem head?_lattice : ∃ first, (lattice columns rows window).head? = some first ∧
    first.origin.x.toNat = columns.offset.toNat ∧ first.origin.y.toNat = rows.offset.toNat := by
  have first := getElem?_lattice columns rows window 0 0 down.count_pos across.count_pos
  rw [Nat.zero_mul, ← List.head?_eq_getElem?] at first
  refine ⟨_, first, ?_, ?_⟩
  · exact (across.toNat_origin 0 across.count_pos).trans (by omega)
  · exact (down.toNat_origin 0 down.count_pos).trans (by omega)

theorem getLast?_lattice : ∃ last, (lattice columns rows window).getLast? = some last ∧
    last.origin.x.toNat + window.width.toNat + columns.remainder image.width window.width =
      image.width.toNat ∧
    last.origin.y.toNat + window.height.toNat + rows.remainder image.height window.height =
      image.height.toNat := by
  have lastColumn : columns.count.toNat - 1 < columns.count.toNat :=
    Nat.sub_one_lt_of_lt across.count_pos
  have lastRow : rows.count.toNat - 1 < rows.count.toNat := Nat.sub_one_lt_of_lt down.count_pos
  have last := getElem?_lattice columns rows window _ _ lastRow lastColumn
  -- All rows but the last one, and of that one all windows but the last.
  have index : (rows.count.toNat - 1) * columns.count.toNat + (columns.count.toNat - 1) =
      columns.count.toNat * rows.count.toNat - 1 := by
    obtain ⟨before, count⟩ := Nat.exists_eq_succ_of_ne_zero down.count_pos.ne'
    rw [count, Nat.succ_sub_one, Nat.mul_succ, Nat.mul_comm]
    omega
  rw [index, ← length_lattice columns rows window, ← List.getLast?_eq_getElem?] at last
  refine ⟨_, last, ?_, ?_⟩
  · have start := across.toNat_origin _ lastColumn
    rw [across.step_eq] at start
    simp only [windowAt, start]
    exact across.isCentred.extent_eq
  · have start := down.toNat_origin _ lastRow
    rw [down.step_eq] at start
    simp only [windowAt, start]
    exact down.isCentred.extent_eq

theorem lattice_coversWithoutGaps (overlapX : stepX.toNat ≤ window.width.toNat)
    (overlapY : stepY.toNat ≤ window.height.toNat) :
    CoversWithoutGaps (lattice columns rows window) image window stepX.toNat stepY.toNat where
  covers_iff := by
    obtain ⟨first, head, left, bottom⟩ := head?_lattice across down
    obtain ⟨last, tail, right, top⟩ := getLast?_lattice across down
    refine ⟨first, last, _, _, head, tail, right, top, fun x y => ?_⟩
    rw [left, bottom]
    exact covered_lattice_iff across down overlapX overlapY x y
  countP_le := countP_lattice_le across down
  partition touchX touchY := by
    -- A window spans a single step, so the bound is one.
    have spanX : window.width.toNat ⌈/⌉ stepX.toNat ≤ 1 :=
      (ceilDiv_le_iff_le_mul across.step_pos).mpr (by omega)
    have spanY : window.height.toNat ⌈/⌉ stepY.toNat ≤ 1 :=
      (ceilDiv_le_iff_le_mul down.step_pos).mpr (by omega)
    have once (x y : Nat) :
        (lattice columns rows window).countP (fun rect => rect.Covers x y) ≤ 1 :=
      Nat.le_trans (countP_lattice_le across down x y) (Nat.mul_le_mul spanX spanY)
    refine ⟨Rect.pairwise_disjoint_of_countP_le _ once, fun x y covered => ?_⟩
    have counted : 0 < (lattice columns rows window).countP fun rect => rect.Covers x y := by
      obtain ⟨rect, member, covers⟩ := covered
      exact List.countP_pos_iff.mpr ⟨rect, member, by simpa using covers⟩
    exact Nat.le_antisymm (once x y) counted

end

/-- The windows of a grid cover exactly the pixels between the margins. No pixel lies in more of them
than the product of how many steps a window spans along the axes, and windows that are one window
apart are disjoint. -/
theorem generate_coversWithoutGaps (image window : Size) (overlap : Double) (rects : List Rect)
    (records : List LogRecord) (generated : generate image window overlap = .ok (rects, records)) :
    CoversWithoutGaps rects image window (share window.width overlap)
      (share window.height overlap) := by
  obtain ⟨fraction, columns, rows, stepX, stepY, across, down, shareX, shareY, rfl⟩ :=
    lattice_of_generate image window overlap rects records generated
  rw [← shareX, ← shareY]
  exact lattice_coversWithoutGaps across down (shareX ▸ share_le window.width overlap fraction)
    (shareY ▸ share_le window.height overlap fraction)

/-- Four windows that touch, with margins of one and two pixels across and none at the bottom, and
windows of five columns at steps of two, of which three reach over one pixel. -/
theorem generate_coversWithoutGaps_touching :
    (∃ rects records, generate ⟨23, 17⟩ ⟨10, 8⟩ (Binary.ofNat 1) = .ok (rects, records) ∧
      rects.map Rect.origin = [⟨1, 0⟩, ⟨11, 0⟩, ⟨1, 8⟩, ⟨11, 8⟩] ∧
      CoversWithoutGaps rects ⟨23, 17⟩ ⟨10, 8⟩ 10 8) ∧
    ∃ rects records, generate ⟨9, 4⟩ ⟨5, 4⟩ GridOptions.defaultOverlap = .ok (rects, records) ∧
      rects.countP (fun rect => rect.Covers 4 0) = 3 ∧ CoversWithoutGaps rects ⟨9, 4⟩ ⟨5, 4⟩ 2 2 := by
  constructor
  · obtain ⟨rects, records, generated, origins⟩ : ∃ rects records,
        generate ⟨23, 17⟩ ⟨10, 8⟩ (Binary.ofNat 1) = .ok (rects, records) ∧
          rects.map Rect.origin = [⟨1, 0⟩, ⟨11, 0⟩, ⟨1, 8⟩, ⟨11, 8⟩] := ⟨_, _, rfl, rfl⟩
    have whole : IsFraction (Binary.ofNat 1) := (isFraction_iff _).mp rfl
    have shareX : share 10 (Binary.ofNat 1) = 10 := (toNat_step 10 _ whole).symm
    have shareY : share 8 (Binary.ofNat 1) = 8 := (toNat_step 8 _ whole).symm
    have covers := generate_coversWithoutGaps ⟨23, 17⟩ ⟨10, 8⟩ _ rects records generated
    rw [shareX, shareY] at covers
    exact ⟨rects, records, generated, origins, covers⟩
  · obtain ⟨rects, records, generated, counted⟩ : ∃ rects records,
        generate ⟨9, 4⟩ ⟨5, 4⟩ GridOptions.defaultOverlap = .ok (rects, records) ∧
          rects.countP (fun rect => rect.Covers 4 0) = 3 := ⟨_, _, rfl, rfl⟩
    have half : IsFraction GridOptions.defaultOverlap := (isFraction_iff _).mp rfl
    have shareX : share 5 GridOptions.defaultOverlap = 2 := (toNat_step 5 _ half).symm
    have shareY : share 4 GridOptions.defaultOverlap = 2 := (toNat_step 4 _ half).symm
    have covers := generate_coversWithoutGaps ⟨9, 4⟩ ⟨5, 4⟩ _ rects records generated
    rw [shareX, shareY] at covers
    exact ⟨rects, records, generated, counted, covers⟩

end Grid

end Raster
