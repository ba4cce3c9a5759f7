import Raster.Proofs.Image.Visible
import Raster.Proofs.View.Chain

/-!
# Evaluation of cropped trees

A rectangle that lies in the size of a tree can be cut out of every view of the tree before
evaluation, or out of the image afterwards. The linear indices of the two evaluations have nothing
to do with each other. What they share are columns and rows: at a column and row of the rectangle
the cropped tree means what the tree means that far from the rectangle's origin.
-/

namespace Raster

namespace Expr

variable {f : PixelFormat}

/-- The tree with the window of a rectangle in the place of each view. -/
def crop (rect : Rect) (e : Expr ViewLeaf f) : Except Failure (Expr ViewLeaf f) :=
  e.mapM fun v => v.subView rect

/-- The tree reads windows of the rectangle's size, if it reads any views, and means the pixels of
the other tree from the origin of the rectangle on. -/
structure IsCropOf (cropped e : Expr ViewLeaf f) (rect : Rect) : Prop where
  leaves_eq_nil_iff : cropped.leaves = [] ↔ e.leaves = []
  wellFormed : ∀ l ∈ cropped.leaves, l.2.WellFormed
  size_eq : ∀ l ∈ cropped.leaves, l.2.size = rect.size
  valueAt_eq : ∀ x y, x < rect.size.width → y < rect.size.height →
    cropped.valueAt x y =
      e.valueAt (.ofNat (rect.origin.x.toNat + x.toNat)) (.ofNat (rect.origin.y.toNat + y.toNat))

/-- A tree all whose views contain the rectangle can be cropped. -/
theorem crop_isCropOf (rect : Rect) (e : Expr ViewLeaf f)
    (sources : ∀ l ∈ e.leaves, l.2.WellFormed)
    (inside : ∀ l ∈ e.leaves, (Rect.ofSize l.2.size).contains rect = true) :
    ∃ cropped, e.crop rect = .ok cropped ∧ cropped.IsCropOf e rect := by
  -- A node hands column and row on as they are, so only the leaves are moved by the origin.
  induction e with
  | const value => exact ⟨.const value, rfl, Iff.rfl, nofun, nofun, fun _ _ _ _ => rfl⟩
  | leaf source =>
    have wf : source.WellFormed := sources ⟨_, source⟩ (.head _)
    obtain ⟨window, found, size, isWindow⟩ :=
      source.subView_of_contains wf rect (inside ⟨_, source⟩ (.head _))
    refine ⟨.leaf window, ?_, ?_, ?_, ?_, fun x y column row => ?_⟩
    · simp only [crop, mapM, found]
      rfl
    · simp [leaves]
    · simpa [leaves] using isWindow.wellFormed
    · simpa [leaves] using size
    · have width : window.width = rect.size.width := congrArg Size.width size
      have height : window.height = rect.size.height := congrArg Size.height size
      exact isWindow.get_eq wf x y (width ▸ column) (height ▸ row)
  | binary op left right ihl ihr =>
    obtain ⟨sourcesLeft, sourcesRight⟩ := (forall_leaves_binary op left right _).mp sources
    obtain ⟨insideLeft, insideRight⟩ := (forall_leaves_binary op left right _).mp inside
    obtain ⟨l, foundLeft, isCropLeft⟩ := ihl sourcesLeft insideLeft
    obtain ⟨r, foundRight, isCropRight⟩ := ihr sourcesRight insideRight
    refine ⟨.binary op l r, ?_, ?_, ?_, ?_, fun x y column row => ?_⟩
    · simp only [crop] at foundLeft foundRight
      simp only [crop, mapM, foundLeft, foundRight]
      rfl
    · simp only [leaves, List.append_eq_nil_iff, isCropLeft.leaves_eq_nil_iff,
        isCropRight.leaves_eq_nil_iff]
    · exact (forall_leaves_binary op l r _).mpr ⟨isCropLeft.wellFormed, isCropRight.wellFormed⟩
    · exact (forall_leaves_binary op l r _).mpr ⟨isCropLeft.size_eq, isCropRight.size_eq⟩
    · simp only [valueAt, isCropLeft.valueAt_eq x y column row,
        isCropRight.valueAt_eq x y column row]
  | cast conversion inner ih =>
    obtain ⟨cropped, found, isCrop⟩ := ih sources inside
    refine ⟨.cast conversion cropped, ?_, isCrop.leaves_eq_nil_iff, isCrop.wellFormed,
      isCrop.size_eq, fun x y column row => ?_⟩
    · simp only [crop] at found
      simp only [crop, mapM, found]
      rfl
    · simp only [valueAt, isCrop.valueAt_eq x y column row]
      rfl

end Expr

namespace Image

/-- A rectangle in an image can be copied, and the copy holds the pixels of the image from the
origin of the rectangle on. -/
theorem copy_view {α : Type} [Inhabited α] (img : Image α) (wf : img.WellFormed) (rect : Rect)
    (inside : (Rect.ofSize img.size).contains rect = true) :
    ∃ window copied, img.view rect = .ok window ∧ window.toImage = .ok copied ∧
      copied.size = rect.size ∧ ∀ x y, x < rect.size.width → y < rect.size.height →
        ∃ p, img.get (.cell (.ofNat (rect.origin.x.toNat + x.toNat))
            (.ofNat (rect.origin.y.toNat + y.toNat))) = .ok p ∧
          copied.get (.cell x y) = .ok p := by
  obtain ⟨window, found, windowSize, isWindow⟩ :=
    img.asView.subView_of_contains wf.asView rect inside
  obtain ⟨values, listed, copied, -, -, copies, -, -, size, pixels, entries⟩ :=
    (isWindow.showsFrom wf).pixels
  have width : window.width = rect.size.width := congrArg Size.width windowSize
  have height : window.height = rect.size.height := congrArg Size.height windowSize
  have copiedWidth : copied.width = window.width := congrArg Size.width size
  have copiedHeight : copied.height = window.height := congrArg Size.height size
  refine ⟨window, copied, found, copies, size.trans windowSize, fun x y column row => ?_⟩
  rw [← width] at column
  rw [← height] at row
  obtain ⟨p, shown, entry, -⟩ := entries x y column row
  refine ⟨p, shown, ?_⟩
  rw [get_cell_eq_ok_iff copied x y p (copiedWidth ▸ column) (copiedHeight ▸ row), copiedWidth,
    pixels, Array.getElem?_toList]
  exact entry

variable {f : PixelFormat}

/-- The image of a tree whose views have one size. -/
theorem ofExpr_isImageOf (e : Expr ViewLeaf f) (size : Size) (views : e.leaves ≠ [])
    (sources : ∀ l ∈ e.leaves, l.2.WellFormed) (sizes : ∀ l ∈ e.leaves, l.2.size = size) :
    IsImageOf (ofExpr e) e size := by
  have computed : e.viewSize? = .ok (some size) :=
    (Expr.size?_eq_some_iff _ e size).mpr ⟨views, sizes⟩
  exact blank.assign_isImageOf wellFormed_blank e (some size) computed sources

/-- Cropping the views of a tree gives the same image as cropping the image of the tree: nothing
fails, and sizes and pixels are the same. -/
theorem ofExpr_crop (e : Expr ViewLeaf f) (size : Size) (rect : Rect) (views : e.leaves ≠ [])
    (sources : ∀ l ∈ e.leaves, View.Reachable l.2) (sizes : ∀ l ∈ e.leaves, l.2.size = size)
    (inside : (Rect.ofSize size).contains rect = true) :
    ∃ cropped window copied, e.crop rect = .ok cropped ∧
      cropped.viewSize? = .ok (some rect.size) ∧ (ofExpr cropped).failure = none ∧
      (ofExpr e).failure = none ∧ (ofExpr e).state.view rect = .ok window ∧
      window.toImage = .ok copied ∧ (ofExpr cropped).state.SameVisible copied := by
  have sourcesWf : ∀ l ∈ e.leaves, l.2.WellFormed := fun l member => (sources l member).wellFormed
  obtain ⟨cropped, crops, isCrop⟩ := e.crop_isCropOf rect sourcesWf fun l member =>
    (sizes l member).symm ▸ inside
  have croppedViews : cropped.leaves ≠ [] := mt isCrop.leaves_eq_nil_iff.mp views
  have croppedSize : cropped.viewSize? = .ok (some rect.size) :=
    (Expr.size?_eq_some_iff _ cropped rect.size).mpr ⟨croppedViews, isCrop.size_eq⟩
  have whole := ofExpr_isImageOf e size views sourcesWf sizes
  have part := ofExpr_isImageOf cropped rect.size croppedViews isCrop.wellFormed isCrop.size_eq
  have wholeWf : (ofExpr e).state.WellFormed := wellFormed_assign wellFormed_blank e
  have partWf : (ofExpr cropped).state.WellFormed := wellFormed_assign wellFormed_blank cropped
  obtain ⟨window, copied, found, copies, copiedSize, shown⟩ :=
    (ofExpr e).state.copy_view wholeWf rect (whole.size_eq.symm ▸ inside)
  refine ⟨cropped, window, copied, crops, croppedSize, part.failure_eq, whole.failure_eq, found,
    copies, ?_⟩
  have copiedWf := wellFormed_toImage window copied copies
  apply SameVisible.of_cells partWf copiedWf (part.size_eq.trans copiedSize.symm)
  intro x y column row
  rw [show copied.width = rect.size.width from congrArg Size.width copiedSize] at column
  rw [show copied.height = rect.size.height from congrArg Size.height copiedSize] at row
  obtain ⟨columns, rows⟩ := (Rect.ofSize_contains_iff size rect).mp inside
  have wideColumn : rect.origin.x.toNat + x.toNat < size.width.toNat :=
    Nat.lt_of_lt_of_le (Nat.add_lt_add_left column _) columns
  have wideRow : rect.origin.y.toNat + y.toNat < size.height.toNat :=
    Nat.lt_of_lt_of_le (Nat.add_lt_add_left row _) rows
  -- The cropped tree, the tree, its image and the copy: each has the pixel of the next.
  obtain ⟨p, means, here⟩ := part.get_cell x y column row
  obtain ⟨q, meansWhole, there⟩ := whole.get_cell _ _ (Coordinate.ofNat_lt _ _ wideColumn)
    (Coordinate.ofNat_lt _ _ wideRow)
  obtain ⟨r, wholePixel, copiedPixel⟩ := shown x y column row
  have sameMeaning : p = q := by
    rw [isCrop.valueAt_eq x y column row, meansWhole] at means
    exact (Except.ok.inj means).symm
  have samePixel : q = r := Except.ok.inj (there.symm.trans wholePixel)
  exact ⟨p, here, sameMeaning ▸ samePixel ▸ copiedPixel⟩

/-- Two columns and two rows in the far corner of four columns and three rows, and no columns behind
the last one. -/
def farEdges : List Rect :=
  [⟨⟨2, 1⟩, ⟨2, 2⟩⟩, ⟨⟨4, 1⟩, ⟨0, 2⟩⟩]

theorem ofExpr_crop_farEdges :
    ramp.Reachable ∧ ∃ near far, ramp.asView.subViews [⟨⟨1, 0⟩, ⟨4, 3⟩⟩] = .ok near ∧
      ramp.asView.subViews [⟨⟨1, 1⟩, ⟨5, 3⟩⟩, ⟨⟨1, 0⟩, ⟨4, 3⟩⟩] = .ok far ∧
      ∀ rect ∈ farEdges, (Rect.ofSize ⟨4, 3⟩).contains rect = true ∧
        ∃ cropped window copied, (shiftedDifference near far).crop rect = .ok cropped ∧
          cropped.viewSize? = .ok (some rect.size) ∧ (ofExpr cropped).failure = none ∧
          (ofExpr (shiftedDifference near far)).failure = none ∧
          (ofExpr (shiftedDifference near far)).state.view rect = .ok window ∧
          window.toImage = .ok copied ∧ (ofExpr cropped).state.SameVisible copied := by
  obtain ⟨near, nearChain⟩ : ∃ near, ramp.asView.subViews [⟨⟨1, 0⟩, ⟨4, 3⟩⟩] = .ok near := ⟨_, rfl⟩
  obtain ⟨far, farChain⟩ : ∃ far,
      ramp.asView.subViews [⟨⟨1, 1⟩, ⟨5, 3⟩⟩, ⟨⟨1, 0⟩, ⟨4, 3⟩⟩] = .ok far := ⟨_, rfl⟩
  have wf := ramp_reachable.wellFormed.asView
  have nearSize := (View.isWindowOf_of_subViews _ _ near wf nearChain).1
  have farSize := (View.isWindowOf_of_subViews _ _ far wf farChain).1
  have windows : (shiftedDifference near far).leaves = [⟨.gray8, far⟩, ⟨.gray8, near⟩] := rfl
  have sources : ∀ l ∈ (shiftedDifference near far).leaves, View.Reachable l.2 := by
    rw [windows, List.forall_mem_cons, List.forall_mem_singleton]
    exact ⟨⟨ramp, ramp_reachable, _, farChain⟩, ⟨ramp, ramp_reachable, _, nearChain⟩⟩
  have sizes : ∀ l ∈ (shiftedDifference near far).leaves, l.2.size = ⟨4, 3⟩ := by
    rw [windows, List.forall_mem_cons, List.forall_mem_singleton]
    exact ⟨farSize, nearSize⟩
  have contained : ∀ rect ∈ farEdges, (Rect.ofSize ⟨4, 3⟩).contains rect = true := by decide
  refine ⟨ramp_reachable, near, far, nearChain, farChain, fun rect member => ?_⟩
  exact ⟨contained rect member, ofExpr_crop (shiftedDifference near far) ⟨4, 3⟩ rect
    (by simp [windows]) sources sizes (contained rect member)⟩

end Image

end Raster
