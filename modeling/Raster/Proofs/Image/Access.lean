import Raster.Proofs.Image.Visible

/-!
# Access to single pixels

A pixel can be read and written by its column and row, by its linear index, through its row, through
the pixels as a whole and through a view of the image. Each of these finds its way for itself. They
all end at one item of the storage, a different one for each pixel, and where there is no pixel none
of them finds an item of another one.
-/

namespace Raster

/-! ### Row-major order -/

/-- Different pixels have different indices. -/
theorem RowMajor.index_injective (x y x' y' width : Nat) (inside : x < width) (inside' : x' < width)
    (same : y * width + x = y' * width + x') : x = x' ∧ y = y' := by
  constructor
  · rw [← mod_index x y width inside, same, mod_index x' y' width inside']
  · rw [← div_index x y width inside, same, div_index x' y' width inside']

/-- A rule that acts on one item writes that item, and leaves hidden slots alone. -/
theorem Storage.modify_single {α : Type} {capacity : Nat} (s : Storage α capacity) (i : Nat)
    (value : α) :
    s.modify (fun j old => if j = i then value else old) = s.put i value := by
  unfold modify put
  cases s with
  | inline slots n h =>
    by_cases inside : i < n
    · simp only [inside, dite_true, inline.injEq, and_true]
      ext j below
      by_cases here : j = i
      · subst here
        simp [inside]
      · simp [here, Ne.symm here]
    · -- The item would lie in a hidden slot, so neither writes anything.
      simp only [inside, dite_false, inline.injEq, and_true]
      ext j below
      have elsewhere : j < n → j ≠ i := fun shown same => inside (same ▸ shown)
      simp +contextual [elsewhere]
  | heap items =>
    simp only [heap.injEq]
    apply Array.ext
    · simp
    · intro j here _
      have below : j < items.size := by simpa using here
      rw [Array.getElem_mapIdx, Array.getElem_setIfInBounds below]
      simp only [eq_comm]

namespace Image

section

variable {α : Type}

/-- The linear index of column `x` of row `y`. -/
def indexAt (img : Image α) (x y : UInt32) : Nat :=
  y.toNat * img.width.toNat + x.toNat

/-- Every way to read the pixel at column `x` of row `y` yields `p`. -/
structure ReadsAs (img : Image α) (x y : UInt32) (p : α) : Prop where
  cell : img.get (.cell x y) = .ok p
  linear : img.get (.linear (img.indexAt x y)) = .ok p
  line : ∃ row, img.line y = .ok row ∧ row.length = img.width.toNat ∧ row.read x.toNat = .ok p
  data : img.data.read (img.indexAt x y) = .ok p
  item : img.data.toList[img.indexAt x y]? = some p
  pixel : img.pixels[img.indexAt x y]? = some (x, y, p)
  viewCell : img.asView.get x y = .ok p
  viewLinear : img.asView.getLinear (img.indexAt x y) = .ok p
  viewRead : img.asView.read (img.indexAt x y) = .ok p

/-- Every way to write a value to column `x` of row `y` leaves the same image, down to the hidden
slots: by position, in the row, and by a rule for the row or for the whole image. -/
structure WritesAs (img : Image α) (x y : UInt32) (value : α) (new : Image α) : Prop where
  cell : img.set (.cell x y) value = .ok new
  linear : img.set (.linear (img.indexAt x y)) value = .ok new
  inLine : img.setInLine y x.toNat value = .ok new
  lineRule :
    img.applyLine y (fun column old => if column = x.toNat then value else old) = .ok new
  rule : img.apply (fun i old => if i = img.indexAt x y then value else old) = new

theorem indexAt_lt (img : Image α) (x y : UInt32) (column : x < img.width) (row : y < img.height) :
    img.indexAt x y < img.size.area :=
  RowMajor.index_lt x.toNat y.toNat img.width.toNat img.height.toNat column row

/-! ### Rows -/

theorem lineStart_of_lt (img : Image α) (y : UInt32) (row : y < img.height) :
    img.lineStart y = .ok (y.toNat * img.width.toNat) :=
  if_neg (UInt32.not_le.mpr row)

theorem lineStart_of_le (img : Image α) (y : UInt32) (outside : img.height ≤ y) :
    img.lineStart y = .error (.lineOutOfRange y img.height) :=
  if_pos outside

/-- A row has as many items as the image has columns: those from its start on. -/
theorem exists_line (img : Image α) (wf : img.WellFormed) (y : UInt32) (row : y < img.height) :
    ∃ items, img.line y = .ok items ∧ items.length = img.width.toNat ∧
      ∀ x < img.width.toNat, items.get? x = img.data.get? (y.toNat * img.width.toNat + x) := by
  have rowsFit : (y.toNat + 1) * img.width.toNat ≤ img.height.toNat * img.width.toNat :=
    Nat.mul_le_mul_right _ row
  rw [Nat.succ_mul, Nat.mul_comm img.height.toNat] at rowsFit
  obtain ⟨items, cut, length, same⟩ := img.data.extract_eq_ok (y.toNat * img.width.toNat)
    (y.toNat * img.width.toNat + img.width.toNat) (Nat.le_add_right ..)
    (wf.length_data.symm ▸ rowsFit)
  rw [Nat.add_sub_cancel_left] at length same
  refine ⟨items, ?_, length, same⟩
  rw [line, img.lineStart_of_lt y row]
  exact (liftFault_eq_ok_iff _ items).mpr cut

/-! ### Reading -/

/-- All ways to read a pixel end at one item. -/
theorem readsAs_of_item (img : Image α) (wf : img.WellFormed) (x y : UInt32)
    (column : x < img.width) (row : y < img.height) (p : α)
    (item : img.data.toList[img.indexAt x y]? = some p) : img.ReadsAs x y p := by
  have data : img.data.read (img.indexAt x y) = .ok p := by
    rwa [Slice.read_eq_ok_iff, Slice.get?_eq_toList]
  have viewCell : img.asView.get x y = .ok p :=
    (img.asView.get_of_lt wf.asView x y column row).trans data
  refine ⟨(img.get_cell x y column row).trans data, data, ?_, data, item, ?_, viewCell, ?_, ?_⟩
  · obtain ⟨items, returned, length, same⟩ := img.exists_line wf y row
    refine ⟨items, returned, length, ?_⟩
    rw [Slice.read_eq_ok_iff, same x.toNat column, Slice.get?_eq_toList]
    exact item
  · have narrow : x.toNat < img.width.toNat := column
    -- There are columns, so the index tells column and row.
    have columns : max img.width.toNat 1 = img.width.toNat :=
      Nat.max_eq_left (Nat.zero_lt_of_lt narrow)
    have listed : img.data.toList.zipIdx[img.indexAt x y]? = some (p, img.indexAt x y) := by
      rw [List.getElem?_zipIdx, item]
      simp
    rw [pixels, List.getElem?_map, listed]
    simp only [Option.map_some, columns, indexAt, RowMajor.mod_index _ _ _ narrow,
      RowMajor.div_index _ _ _ narrow, UInt32.ofNat_toNat]
  · exact (img.asView.getLinear_index wf.asView x y column row).trans viewCell
  · exact (img.asView.read_index wf.asView x y column row).trans viewCell

theorem exists_readsAs (img : Image α) (wf : img.WellFormed) (x y : UInt32)
    (column : x < img.width) (row : y < img.height) : ∃ p, img.ReadsAs x y p := by
  have inside : img.indexAt x y < img.data.toList.length := by
    rw [wf.length_toList]
    exact img.indexAt_lt x y column row
  exact ⟨_, img.readsAs_of_item wf x y column row _ (List.getElem?_eq_getElem inside)⟩

/-! ### Writing -/

/-- All ways to write a pixel put the value to one item. -/
theorem writesAs_put (img : Image α) (wf : img.WellFormed) (x y : UInt32) (column : x < img.width)
    (row : y < img.height) (value : α) :
    img.WritesAs x y value { img with storage := img.storage.put (img.indexAt x y) value } := by
  have narrow : x.toNat < img.width.toNat := column
  have linear := img.set_linear_eq_ok wf _ (img.indexAt_lt x y column row) value
  have rule : img.apply (fun i old => if i = img.indexAt x y then value else old) =
      { img with storage := img.storage.put (img.indexAt x y) value } := by
    rw [apply, Storage.modify_single]
  refine ⟨?_, linear, ?_, ?_, rule⟩
  · have index : img.indexOf (.cell x y) = .ok (img.indexAt x y) := if_pos ⟨column, row⟩
    rw [← linear, set, index]
    rfl
  · simp only [setInLine, bind_eq_ok_iff]
    refine ⟨_, (liftError_eq_ok_iff _ _).mpr (img.lineStart_of_lt y row), ?_⟩
    rw [if_pos narrow]
    exact (liftFault_eq_ok_iff _ _).mpr linear
  · simp only [applyLine, bind_eq_ok_iff, pure_eq_ok_iff]
    refine ⟨_, img.lineStart_of_lt y row, ?_⟩
    rw [← rule]
    -- The rule for the row leaves all other rows alone, and reaches the index by its column.
    congr 1
    funext i old
    rw [indexAt]
    by_cases here : i = y.toNat * img.width.toNat + x.toNat
    · subst here
      simp [narrow]
    · rw [if_neg here]
      split
      next inRow => rw [if_neg (by omega)]
      next => rfl

/-- A write changes one item, and neither size nor kind. -/
theorem readsAs_put (img : Image α) (wf : img.WellFormed) (x y : UInt32) (column : x < img.width)
    (row : y < img.height) (value : α) (new : Image α)
    (written : new = { img with storage := img.storage.put (img.indexAt x y) value }) :
    new.size = img.size ∧ new.isInline = img.isInline ∧ new.ReadsAs x y value ∧
      ∀ x' y', x' < img.width → y' < img.height → (x', y') ≠ (x, y) →
        ∃ old, img.ReadsAs x' y' old ∧ new.ReadsAs x' y' old := by
  subst written
  have kept := wf.withStorage _ (Storage.length_put img.storage (img.indexAt x y) value)
    (Storage.kind_put img.storage (img.indexAt x y) value)
  have items := Storage.toList_put img.storage (img.indexAt x y) value
  have inside : img.indexAt x y < img.data.toList.length := by
    rw [wf.length_toList]
    exact img.indexAt_lt x y column row
  refine ⟨rfl, ?_, ?_, fun x' y' column' row' other => ?_⟩
  · rw [isInline, isInline, Storage.isInline, Storage.isInline, Storage.kind_put]
  · -- The new image is well-formed as well, so to know the item is to know all ways to read it.
    apply readsAs_of_item _ kept x y column row
    exact (congrArg (·[img.indexAt x y]?) items).trans (List.getElem?_set_self inside)
  · obtain ⟨old, reads⟩ := img.exists_readsAs wf x' y' column' row'
    refine ⟨old, reads, ?_⟩
    -- Another pixel has another index, which the write leaves alone.
    have apart : img.indexAt x y ≠ img.indexAt x' y' := by
      intro same
      obtain ⟨sameColumn, sameRow⟩ :=
        RowMajor.index_injective _ _ _ _ img.width.toNat column column' same
      exact other (Prod.ext (UInt32.toNat_inj.mp sameColumn.symm) (UInt32.toNat_inj.mp sameRow.symm))
    apply readsAs_of_item _ kept x' y' column' row'
    exact ((congrArg (·[img.indexAt x' y']?) items).trans (List.getElem?_set_ne apart)).trans reads.item

end

/-! ### Where there is no pixel -/

variable {f : PixelFormat}

/-- Access by a column and a row outside the image faults, and changes nothing. -/
structure RefusesCell (img : Image (Pixel f)) (x y : UInt32) : Prop where
  read : img.get (.cell x y) = .error (.pixelOutsideImage x y img.width img.height)
  viewRead : img.asView.get x y = .error (.pixelOutsideView x y img.width img.height)
  write : ∀ value, Edit.run img (.set (.cell x y) value) =
    .failed img (.fault (.pixelOutsideImage x y img.width img.height))

/-- Access by a linear index past the last pixel faults, and changes nothing. -/
structure RefusesIndex (img : Image (Pixel f)) (i : Nat) : Prop where
  read : img.get (.linear i) = .error (.indexOutOfBounds img.size.area i)
  data : img.data.read i = .error (.indexOutOfBounds img.size.area i)
  viewLinear : img.asView.getLinear i = .error (.indexOutsideView i img.width img.height)
  viewRead : img.asView.read i = .error (.indexOutOfBounds img.size.area i)
  write : ∀ value, Edit.run img (.set (.linear i) value) =
    .failed img (.fault (.indexOutOfBounds img.size.area i))

/-- There is such a row. It can be read and written, though not past its last column, where access
faults and changes nothing. -/
structure HasLine (img : Image (Pixel f)) (y : UInt32) : Prop where
  line : ∃ row, img.line y = .ok row ∧ row.length = img.width.toNat ∧
    ∀ x, img.width.toNat ≤ x → row.read x = .error (.indexOutOfBounds img.width.toNat x)
  rule : ∀ rule, ∃ new, img.applyLine y rule = .ok new
  write : ∀ x value, img.width.toNat ≤ x → Edit.run img (.setInLine y x value) =
    .failed img (.fault (.indexOutOfBounds img.width.toNat x))

/-- There is no such row. Access is refused, and changes nothing. -/
structure RefusesLine (img : Image (Pixel f)) (y : UInt32) : Prop where
  line : img.line y = .error (.error (.lineOutOfRange y img.height))
  rule : ∀ rule, Edit.run img (.applyLine y rule) =
    .failed img (.error (.lineOutOfRange y img.height))
  write : ∀ x value, Edit.run img (.setInLine y x value) =
    .failed img (.error (.lineOutOfRange y img.height))

theorem refusesCell (img : Image (Pixel f)) (x y : UInt32)
    (outside : ¬(x < img.width ∧ y < img.height)) : img.RefusesCell x y := by
  have index : img.indexOf (.cell x y) =
      .error (.pixelOutsideImage x y img.width img.height) := if_neg outside
  refine ⟨?_, if_neg outside, fun value => ?_⟩
  · rw [get, index]
    rfl
  · rw [Edit.run, set, index]
    rfl

theorem refusesIndex (img : Image (Pixel f)) (wf : img.WellFormed) (i : Nat)
    (outside : img.size.area ≤ i) : img.RefusesIndex i := by
  have length := wf.length_data
  have data : img.data.read i = .error (.indexOutOfBounds img.size.area i) := by
    rw [img.data.read_of_length_le i (length.symm ▸ outside), length]
  refine ⟨data, data, if_neg (Nat.not_lt.mpr outside), (if_pos rfl).trans data, fun value => ?_⟩
  have stored : img.storage.set i value = .error (.indexOutOfBounds img.size.area i) := by
    rw [length_data_eq] at length
    rw [Storage.set, length, if_neg (Nat.not_lt.mpr outside)]
  rw [Edit.run, set, indexOf]
  simp only [bind, Except.bind, stored]
  rfl

theorem hasLine (img : Image (Pixel f)) (wf : img.WellFormed) (y : UInt32)
    (row : y < img.height) : img.HasLine y := by
  have start := img.lineStart_of_lt y row
  refine ⟨?_, fun rule => ?_, fun x value outside => ?_⟩
  · obtain ⟨items, returned, length, -⟩ := img.exists_line wf y row
    refine ⟨items, returned, length, fun x outside => ?_⟩
    rw [items.read_of_length_le x (length.symm ▸ outside), length]
  · rw [applyLine, start]
    exact ⟨_, rfl⟩
  · have written : img.setInLine y x value =
        .error (.fault (.indexOutOfBounds img.width.toNat x)) := by
      rw [setInLine, start]
      exact if_neg (Nat.not_lt.mpr outside)
    rw [Edit.run, written]
    rfl

theorem refusesLine (img : Image (Pixel f)) (y : UInt32) (outside : img.height ≤ y) :
    img.RefusesLine y := by
  have start := img.lineStart_of_le y outside
  refine ⟨?_, fun rule => ?_, fun x value => ?_⟩
  · rw [line, start]
    rfl
  · rw [Edit.run, applyLine, start]
    rfl
  · rw [Edit.run, setInLine, start]
    rfl

/-! ### All accesses -/

/-- Whichever way a pixel of a reachable image is written, the image that is left is the same, and
all ways to read agree on it: on the new value at that pixel, and on the old one at every other. Size
and kind of storage stay. By a column and a row, or an index, where there is no pixel nothing can be
read or written, whether or not the index that they would amount to is that of another pixel. Rows
can be had exactly below the height, and each ends with its last column. -/
theorem access_addresses_one_pixel (img : Image (Pixel f)) (reachable : img.Reachable) :
    (∀ x y, x < img.width → y < img.height → ∀ value, ∃ new, img.WritesAs x y value new ∧
      new.size = img.size ∧ new.isInline = img.isInline ∧ new.ReadsAs x y value ∧
      ∀ x' y', x' < img.width → y' < img.height → (x', y') ≠ (x, y) →
        ∃ old, img.ReadsAs x' y' old ∧ new.ReadsAs x' y' old) ∧
    (∀ x y, ¬(x < img.width ∧ y < img.height) → img.RefusesCell x y) ∧
    (∀ i, img.size.area ≤ i → img.RefusesIndex i) ∧
    (∀ y, y < img.height → img.HasLine y) ∧ ∀ y, img.height ≤ y → img.RefusesLine y := by
  have wf := reachable.wellFormed
  refine ⟨fun x y column row value => ?_, img.refusesCell, img.refusesIndex wf, img.hasLine wf,
    img.refusesLine⟩
  exact ⟨_, img.writesAs_put wf x y column row value,
    img.readsAs_put wf x y column row value _ rfl⟩

/-- The last pixel of a row is written, and the first of the next row keeps its value. A column
further there is no pixel, although the index of the next row's first pixel is just what column and
row amount to. -/
theorem access_addresses_one_pixel_rowEnd :
    ramp.Reachable ∧
      (∃ new, ramp.WritesAs 5 1 (Level.ofNat 99 : Level 8) new ∧
        new.ReadsAs 5 1 (Level.ofNat 99 : Level 8) ∧
        ∃ old, ramp.ReadsAs 0 2 old ∧ new.ReadsAs 0 2 old) ∧
      ramp.indexAt 6 1 = ramp.indexAt 0 2 ∧ ramp.RefusesCell 6 1 ∧ ramp.RefusesIndex 24 ∧
      ramp.HasLine 3 ∧ ramp.RefusesLine 4 := by
  obtain ⟨writes, cells, indices, lines, noLines⟩ := access_addresses_one_pixel ramp ramp_reachable
  obtain ⟨new, written, -, -, here, elsewhere⟩ :=
    writes 5 1 (by decide) (by decide) (Level.ofNat 99 : Level 8)
  exact ⟨ramp_reachable, ⟨new, written, here, elsewhere 0 2 (by decide) (by decide) (by decide)⟩,
    rfl, cells 6 1 (by decide), indices 24 (by decide), lines 3 (by decide), noLines 4 (by decide)⟩

end Image

end Raster
