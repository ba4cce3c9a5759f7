import Raster.Proofs.Image.Contents

/-!
# Reading well-formed views

The data of a well-formed view end with its last pixel, so a row-major index past the end of the
view lies past the end of its data too, although neither is compared with the other. Inside, all
ways to read a pixel address the same item, and nothing on the way leaves the word.
-/

namespace Raster

/-! ### Small coordinates -/

namespace Coordinate

theorem toNat_ofNat (i : Nat) (bound : UInt32) (below : i < bound.toNat) :
    (UInt32.ofNat i).toNat = i :=
  UInt32.toNat_ofNat_of_lt' (Nat.lt_trans below bound.toNat_lt)

theorem ofNat_lt (i : Nat) (bound : UInt32) (below : i < bound.toNat) : UInt32.ofNat i < bound := by
  rw [UInt32.lt_iff_toNat_lt, toNat_ofNat i bound below]
  exact below

end Coordinate

/-! ### Row-major order -/

namespace RowMajor

variable {β : Type}

theorem div_index (x y width : Nat) (inside : x < width) : (y * width + x) / width = y := by
  rw [Nat.add_comm, Nat.add_mul_div_right x y (by omega), Nat.div_eq_of_lt inside, Nat.zero_add]

theorem mod_index (x y width : Nat) (inside : x < width) : (y * width + x) % width = x := by
  rw [Nat.add_comm, Nat.add_mul_mod_self_right, Nat.mod_eq_of_lt inside]

theorem index_lt (x y width height : Nat) (column : x < width) (row : y < height) :
    y * width + x < width * height := by
  have rows : (y + 1) * width ≤ height * width := Nat.mul_le_mul_right width row
  rw [Nat.succ_mul, Nat.mul_comm height] at rows
  omega

theorem div_lt (i width height : Nat) (inside : i < width * height) : i / width < height :=
  Nat.div_lt_of_lt_mul inside

theorem mod_lt (i width height : Nat) (inside : i < width * height) : i % width < width := by
  apply Nat.mod_lt
  exact Nat.pos_of_mul_pos_right (Nat.zero_lt_of_lt inside)

theorem length_rows (width height : Nat) (entry : Nat → Nat → β) :
    ((List.range height).flatMap fun y => (List.range width).map (entry y)).length =
      width * height := by
  induction height with
  | zero => simp
  | succ height ih => simp [List.range_succ, ih, Nat.mul_succ]

theorem getElem?_rows (width height : Nat) (entry : Nat → Nat → β) (i : Nat)
    (inside : i < width * height) :
    ((List.range height).flatMap fun y => (List.range width).map (entry y))[i]? =
      some (entry (i / width) (i % width)) := by
  induction height with
  | zero => simp at inside
  | succ height ih =>
    simp only [List.range_succ, List.flatMap_append, List.flatMap_singleton]
    by_cases before : i < width * height
    · rw [List.getElem?_append_left (by rwa [length_rows]), ih before]
    · -- The index lies in the last row.
      obtain ⟨x, rfl⟩ : ∃ x, i = height * width + x := ⟨i - height * width, by
        rw [Nat.mul_comm] at before
        omega⟩
      have column : x < width := by
        rw [Nat.mul_succ, Nat.mul_comm] at inside
        omega
      rw [List.getElem?_append_right (by rw [length_rows, Nat.mul_comm]; omega), length_rows,
        div_index x height width column, mod_index x height width column, Nat.mul_comm width,
        Nat.add_sub_cancel_left]
      simp [column]

end RowMajor

namespace View

variable {α : Type}

/-- How many items lie from the first to the last pixel. -/
def span (v : View α) : Nat :=
  if v.pixelCount = 0 then 0 else (v.height.toNat - 1) * v.stride + v.width.toNat

/-- The data of a view with pixels: all rows but the last with their gaps, and the last row. -/
theorem span_of_pixels (v : View α) (pixels : v.pixelCount ≠ 0) :
    ∃ before, v.height.toNat = before + 1 ∧ v.span = before * v.stride + v.width.toNat := by
  have rows : v.height.toNat ≠ 0 := by
    intro noRows
    apply pixels
    rw [pixelCount, Size.area, size, noRows, Nat.mul_zero]
  obtain ⟨before, last⟩ := Nat.exists_eq_succ_of_ne_zero rows
  refine ⟨before, last, ?_⟩
  rw [span, if_neg pixels, last, Nat.succ_sub_one]

structure WellFormed (v : View α) : Prop where
  width_le : v.width.toNat ≤ v.stride
  stride_lt : v.stride < UInt32.size
  length_data : v.data.length = v.span

/-! ### Offsets -/

theorem offsetOf_eq_ok (row stride column : Nat) (rowBound : row < UInt32.size)
    (strideBound : stride < UInt32.size) (columnBound : column < UInt32.size) :
    offsetOf row stride column = .ok (row * stride + column) := by
  have product : row * stride ≤ 4294967295 * 4294967295 :=
    Nat.mul_le_mul (Nat.le_of_lt_succ rowBound) (Nat.le_of_lt_succ strideBound)
  have sum : row * stride + column < wordSize := by
    simp only [wordSize, UInt64.size, UInt32.size] at *
    omega
  unfold offsetOf
  rw [if_neg (by omega), if_neg (by omega)]

/-- The offset of a pixel lies in the data. -/
theorem offset_lt (v : View α) (wf : v.WellFormed) (x y : Nat) (column : x < v.width.toNat)
    (row : y < v.height.toNat) : y * v.stride + x < v.data.length := by
  have pixels : v.pixelCount ≠ 0 :=
    Nat.ne_zero_of_lt (RowMajor.index_lt x y v.width.toNat v.height.toNat column row)
  obtain ⟨before, last, span⟩ := v.span_of_pixels pixels
  have rows : y * v.stride ≤ before * v.stride := Nat.mul_le_mul_right v.stride (by omega)
  rw [wf.length_data, span]
  omega

/-- Where an index lies in the data of a view. -/
def offsetAt (v : View α) (i : Nat) : Nat :=
  i / v.width.toNat * v.stride + i % v.width.toNat

theorem offsetAt_index (v : View α) (x y : Nat) (column : x < v.width.toNat) :
    v.offsetAt (y * v.width.toNat + x) = y * v.stride + x := by
  rw [offsetAt, RowMajor.div_index x y _ column, RowMajor.mod_index x y _ column]

theorem offsetAt_lt (v : View α) (wf : v.WellFormed) (i : Nat) (inside : i < v.pixelCount) :
    v.offsetAt i < v.data.length :=
  v.offset_lt wf _ _ (RowMajor.mod_lt i _ _ inside) (RowMajor.div_lt i _ _ inside)

theorem offsetOf_offsetAt (v : View α) (wf : v.WellFormed) (i : Nat) (inside : i < v.pixelCount) :
    offsetOf (i / v.width.toNat) v.stride (i % v.width.toNat) = .ok (v.offsetAt i) := by
  have row := RowMajor.div_lt i _ _ inside
  have column := RowMajor.mod_lt i _ _ inside
  exact offsetOf_eq_ok _ _ _ (Nat.lt_trans row v.height.toNat_lt) wf.stride_lt
    (Nat.lt_trans column v.width.toNat_lt)

/-! ### Single pixels -/

theorem read_of_lt (v : View α) (wf : v.WellFormed) (i : Nat) (inside : i < v.pixelCount) :
    v.read i = v.data.read (v.offsetAt i) := by
  unfold read
  split
  next gapless => rw [offsetAt, gapless, Nat.div_add_mod']
  next =>
    have column : i % v.width.toNat < v.width.toNat := RowMajor.mod_lt i _ _ inside
    have nonempty : v.width ≠ 0 := by
      intro empty
      simp [empty] at column
    rw [if_neg nonempty, v.offsetOf_offsetAt wf i inside]
    rfl

theorem getLinear_of_lt (v : View α) (wf : v.WellFormed) (i : Nat) (inside : i < v.pixelCount) :
    v.getLinear i = v.data.read (v.offsetAt i) := by
  unfold getLinear
  rw [if_pos inside, v.offsetOf_offsetAt wf i inside]
  rfl

theorem get_of_lt (v : View α) (wf : v.WellFormed) (x y : UInt32) (column : x < v.width)
    (row : y < v.height) : v.get x y = v.data.read (y.toNat * v.stride + x.toNat) := by
  unfold get
  rw [if_pos ⟨column, row⟩, offsetOf_eq_ok _ _ _ y.toNat_lt wf.stride_lt x.toNat_lt]
  rfl

/-- A pixel by its column and row is the one at its row-major index. -/
theorem read_index (v : View α) (wf : v.WellFormed) (x y : UInt32) (column : x < v.width)
    (row : y < v.height) : v.read (y.toNat * v.width.toNat + x.toNat) = v.get x y := by
  have inside := RowMajor.index_lt x.toNat y.toNat v.width.toNat v.height.toNat column row
  rw [v.read_of_lt wf _ inside, v.offsetAt_index x.toNat y.toNat column,
    v.get_of_lt wf x y column row]

theorem getLinear_index (v : View α) (wf : v.WellFormed) (x y : UInt32) (column : x < v.width)
    (row : y < v.height) : v.getLinear (y.toNat * v.width.toNat + x.toNat) = v.get x y := by
  have inside := RowMajor.index_lt x.toNat y.toNat v.width.toNat v.height.toNat column row
  rw [← v.read_index wf x y column row, v.read_of_lt wf _ inside, v.getLinear_of_lt wf _ inside]

theorem exists_read (v : View α) (wf : v.WellFormed) (i : Nat) (inside : i < v.pixelCount) :
    ∃ p, v.read i = .ok p := by
  obtain ⟨p, found⟩ := v.data.exists_get? _ (v.offsetAt_lt wf i inside)
  exact ⟨p, (v.read_of_lt wf i inside).trans ((v.data.read_eq_ok_iff _ p).mpr found)⟩

theorem exists_get (v : View α) (wf : v.WellFormed) (x y : UInt32) (column : x < v.width)
    (row : y < v.height) : ∃ p, v.get x y = .ok p := by
  rw [← v.read_index wf x y column row]
  exact v.exists_read wf _ (RowMajor.index_lt _ _ _ _ column row)

/-- An index past the end of the view is past the end of its data. -/
theorem length_data_le_offsetAt (v : View α) (wf : v.WellFormed) (i : Nat)
    (nonempty : 0 < v.width.toNat) (outside : v.pixelCount ≤ i) :
    v.data.length ≤ v.offsetAt i := by
  rw [wf.length_data]
  by_cases pixels : v.pixelCount = 0
  · rw [span, if_pos pixels]
    exact Nat.zero_le _
  · obtain ⟨before, last, span⟩ := v.span_of_pixels pixels
    -- The row of the index does not exist, and the data end within the last row.
    have rows : before + 1 ≤ i / v.width.toNat := by
      apply (Nat.le_div_iff_mul_le nonempty).mpr
      rw [← last, Nat.mul_comm]
      exact outside
    have below : (before + 1) * v.stride ≤ i / v.width.toNat * v.stride :=
      Nat.mul_le_mul_right v.stride rows
    have narrow := wf.width_le
    rw [Nat.succ_mul] at below
    rw [span, offsetAt]
    omega

/-- Without gaps there are no more data than pixels. -/
theorem length_data_le_pixelCount (v : View α) (wf : v.WellFormed)
    (gapless : v.stride = v.width.toNat) : v.data.length ≤ v.pixelCount := by
  rw [wf.length_data]
  by_cases pixels : v.pixelCount = 0
  · rw [span, if_pos pixels]
    exact Nat.zero_le _
  · obtain ⟨before, last, span⟩ := v.span_of_pixels pixels
    have counted : v.pixelCount = v.width.toNat * v.height.toNat := rfl
    apply Nat.le_of_eq
    rw [span, counted, gapless, last, Nat.mul_succ, Nat.mul_comm]

theorem eq_of_offsetOf_eq_ok (row stride column offset : Nat)
    (returned : offsetOf row stride column = .ok offset) : offset = row * stride + column := by
  unfold offsetOf at returned
  split at returned
  · cases returned
  · split at returned
    · cases returned
    · exact (Except.ok.inj returned).symm

/-- Reading past the end faults: nothing but the length of the data stops it. -/
theorem read_of_le (v : View α) (wf : v.WellFormed) (i : Nat) (outside : v.pixelCount ≤ i) :
    ∃ fault, v.read i = .error fault := by
  unfold read
  split
  next gapless =>
    have counted := v.length_data_le_pixelCount wf gapless
    exact ⟨_, v.data.read_of_length_le i (Nat.le_trans counted outside)⟩
  · split
    · exact ⟨_, rfl⟩
    next nonempty =>
      have positive : 0 < v.width.toNat := by
        apply Nat.pos_of_ne_zero
        intro noColumns
        exact nonempty (UInt32.toNat_inj.mp noColumns)
      cases offset : offsetOf (i / v.width.toNat) v.stride (i % v.width.toNat) with
      | error fault => exact ⟨fault, rfl⟩
      | ok start =>
        obtain rfl : start = v.offsetAt i := eq_of_offsetOf_eq_ok _ _ _ _ offset
        exact ⟨_, v.data.read_of_length_le _ (v.length_data_le_offsetAt wf i positive outside)⟩

/-! ### Rows -/

theorem row_of_lt (v : View α) (wf : v.WellFormed) (y : Nat) (nonempty : 0 < v.width.toNat)
    (inside : y < v.height.toNat) :
    ∃ row, v.row y = .ok row ∧ row.length = v.width.toNat ∧
      ∀ x < v.width.toNat, row.get? x = v.data.get? (y * v.stride + x) := by
  have last := v.offset_lt wf (v.width.toNat - 1) y (by omega) inside
  obtain ⟨row, found, length, same⟩ := v.data.extract_eq_ok (y * v.stride)
    (y * v.stride + v.width.toNat) (Nat.le_add_right _ _) (by omega)
  rw [Nat.add_sub_cancel_left] at length same
  exact ⟨row, found, length, same⟩

theorem line_of_lt (v : View α) (wf : v.WellFormed) (y : UInt32) (inside : y < v.height) :
    ∃ row, v.line y = .ok row ∧ row.length = v.width.toNat ∧
      ∀ x < v.width, row.read x.toNat = v.get x y := by
  have below : ¬v.height ≤ y := UInt32.not_le.mpr inside
  unfold line
  rw [if_neg below]
  -- Without columns the row is not cut out of the data, which may end before it.
  by_cases empty : v.width = 0
  · rw [if_pos empty]
    refine ⟨v.data.empty, rfl, ?_, fun x column => ?_⟩
    · rw [empty]
      rfl
    · rw [empty] at column
      exact absurd column (UInt32.not_lt.mpr (UInt32.zero_le))
  · rw [if_neg empty]
    have positive : 0 < v.width.toNat :=
      Nat.pos_of_ne_zero fun noColumns => empty (UInt32.toNat_inj.mp noColumns)
    obtain ⟨row, found, length, same⟩ := v.row_of_lt wf y.toNat positive inside
    refine ⟨row, (liftFault_eq_ok_iff _ row).mpr found, length, fun x column => ?_⟩
    rw [v.get_of_lt wf x y column inside]
    exact Slice.read_congr _ _ _ _ (v.offset_lt wf x.toNat y.toNat column inside)
      (same x.toNat column)

/-! ### All pixels -/

/-- The first rows one after the other. -/
private theorem foldlM_rows (v : View α) (wf : v.WellFormed) (nonempty : 0 < v.width.toNat)
    (count : Nat) (inside : count ≤ v.height.toNat) :
    ∃ seen, (List.range count).foldlM (fun seen y => return seen ++ (← v.row y).toArray) #[] =
        (.ok seen : Except Fault (Array α)) ∧ seen.size = v.width.toNat * count ∧
      ∀ i < v.width.toNat * count, seen[i]? = v.data.get? (v.offsetAt i) := by
  induction count with
  | zero => exact ⟨#[], rfl, rfl, fun i negative => absurd negative (Nat.not_lt_zero i)⟩
  | succ count ih =>
    obtain ⟨seen, before, length, same⟩ := ih (Nat.le_of_lt inside)
    obtain ⟨row, found, rowLength, rowSame⟩ := v.row_of_lt wf count nonempty inside
    refine ⟨seen ++ row.toArray, ?_, ?_, fun i within => ?_⟩
    · rw [List.range_succ, List.foldlM_append, before]
      simp [bind, Except.bind, found, pure, Except.pure]
    · rw [Array.size_append, length, row.size_toArray, rowLength, Nat.mul_succ]
    · -- The index lies in the rows seen before or in the row that is added.
      by_cases earlier : i < v.width.toNat * count
      · rw [Array.getElem?_append_left (length ▸ earlier), same i earlier]
      · obtain ⟨x, rfl⟩ : ∃ x, i = count * v.width.toNat + x :=
          ⟨i - v.width.toNat * count, by rw [Nat.mul_comm count]; omega⟩
        have column : x < v.width.toNat := by
          rw [Nat.mul_succ, Nat.mul_comm] at within
          omega
        rw [Array.getElem?_append_right (by rw [length, Nat.mul_comm]; omega), length,
          v.offsetAt_index x count column, Nat.mul_comm v.width.toNat, Nat.add_sub_cancel_left,
          ← row.get?_eq_toArray, rowSame x column]

theorem values_eq_ok (v : View α) (wf : v.WellFormed) :
    ∃ values, v.values = .ok values ∧ values.size = v.pixelCount ∧
      ∀ i p, values[i]? = some p ↔ v.read i = .ok p := by
  have counted : v.pixelCount = v.width.toNat * v.height.toNat := rfl
  have reads (values : Array α) (length : values.size = v.pixelCount)
      (same : ∀ i < v.pixelCount, values[i]? = v.data.get? (v.offsetAt i)) (i : Nat) (p : α) :
      values[i]? = some p ↔ v.read i = .ok p := by
    by_cases inside : i < v.pixelCount
    · rw [same i inside, v.read_of_lt wf i inside, Slice.read_eq_ok_iff]
    · have outside : v.pixelCount ≤ i := Nat.le_of_not_lt inside
      obtain ⟨fault, faults⟩ := v.read_of_le wf i outside
      rw [faults, Array.getElem?_eq_none (length ▸ outside)]
      simp
  unfold values rows
  by_cases empty : v.width = 0
  · have noPixels : v.pixelCount = 0 := by
      rw [counted, empty]
      exact Nat.zero_mul _
    rw [if_pos empty]
    exact ⟨#[], rfl, noPixels.symm, reads #[] noPixels.symm fun i inside => by omega⟩
  · have positive : 0 < v.width.toNat :=
      Nat.pos_of_ne_zero fun noColumns => empty (UInt32.toNat_inj.mp noColumns)
    obtain ⟨values, folded, length, same⟩ :=
      v.foldlM_rows wf positive v.height.toNat (Nat.le_refl _)
    rw [if_neg empty]
    exact ⟨values, folded, length, reads values length same⟩

/-- The positions in a view row by row. -/
def positions (v : View α) : List (UInt32 × UInt32) :=
  (List.range v.height.toNat).flatMap fun y => (List.range v.width.toNat).map fun x =>
    (UInt32.ofNat x, UInt32.ofNat y)

theorem length_positions (v : View α) : v.positions.length = v.pixelCount :=
  RowMajor.length_rows v.width.toNat v.height.toNat _

theorem pixels_eq_mapM (v : View α) :
    v.pixels = v.positions.mapM fun (x, y) => return (x, y, ← v.get x y) := by
  unfold pixels rows
  split
  next empty =>
    have noPositions : v.positions = [] := by
      apply List.eq_nil_of_length_eq_zero
      rw [v.length_positions, pixelCount, Size.area, size, empty]
      exact Nat.zero_mul _
    rw [noPositions]
    rfl
  next => rfl

theorem mem_positions (v : View α) (position : UInt32 × UInt32) (member : position ∈ v.positions) :
    position.1 < v.width ∧ position.2 < v.height := by
  obtain ⟨y, row, inRow⟩ := List.mem_flatMap.mp member
  obtain ⟨x, column, rfl⟩ := List.mem_map.mp inRow
  exact ⟨Coordinate.ofNat_lt x v.width (List.mem_range.mp column),
    Coordinate.ofNat_lt y v.height (List.mem_range.mp row)⟩

theorem getElem?_positions (v : View α) (x y : UInt32) (column : x < v.width)
    (row : y < v.height) :
    v.positions[y.toNat * v.width.toNat + x.toNat]? = some (x, y) := by
  have inside := RowMajor.index_lt x.toNat y.toNat v.width.toNat v.height.toNat column row
  unfold positions
  rw [RowMajor.getElem?_rows _ _ _ _ inside,
    RowMajor.div_index x.toNat y.toNat v.width.toNat column,
    RowMajor.mod_index x.toNat y.toNat v.width.toNat column, UInt32.ofNat_toNat,
    UInt32.ofNat_toNat]

theorem pixels_eq_ok (v : View α) (wf : v.WellFormed) :
    ∃ listed, v.pixels = .ok listed ∧ listed.length = v.pixelCount ∧
      ∀ x y, x < v.width → y < v.height → ∃ p, v.get x y = .ok p ∧
        listed[y.toNat * v.width.toNat + x.toNat]? = some (x, y, p) := by
  have total : ∀ position ∈ v.positions, ∃ entry : UInt32 × UInt32 × α,
      (do return (position.1, position.2, ← v.get position.1 position.2)) =
        (.ok entry : Except Fault _) := by
    intro position member
    obtain ⟨column, row⟩ := v.mem_positions position member
    obtain ⟨p, found⟩ := v.exists_get wf position.1 position.2 column row
    exact ⟨(position.1, position.2, p), by simp [found, bind, Except.bind, pure, Except.pure]⟩
  obtain ⟨listed, returned, length, pointwise⟩ := mapM_total _ v.positions total
  refine ⟨listed, v.pixels_eq_mapM.trans returned, length.trans v.length_positions,
    fun x y column row => ?_⟩
  obtain ⟨entry, produced, at_index⟩ := pointwise _ _ (v.getElem?_positions x y column row)
  simp only [bind_eq_ok_iff, pure_eq_ok_iff] at produced
  obtain ⟨p, found, rfl⟩ := produced
  exact ⟨p, found, at_index⟩

theorem toImage_eq_ok [Inhabited α] (v : View α) (values : Array α)
    (returned : v.values = .ok values) (length : values.size = v.pixelCount) :
    ∃ copied, v.toImage = .ok copied ∧ copied.size = v.size ∧
      copied.data.toList = values.toList := by
  have zeroed : (Image.zeroed v.width v.height : Image α).data.length = v.pixelCount :=
    (Image.wellFormed_filled v.width v.height default).length_data
  refine ⟨(Image.zeroed v.width v.height).overwrite values, ?_, rfl, ?_⟩
  · unfold toImage
    rw [returned]
    rfl
  · exact Image.toList_overwrite _ values (length.trans zeroed.symm)

end View

end Raster
