import Raster.Proofs.View.Reading
import Raster.Proofs.Workspace.Reachable

/-!
# Chains of windows

A window of a view shares the stride and shows a rectangle of the view's pixels. Windows of windows
are windows, with their origins added up, so every read through a chain gives a pixel of the image
at the bottom. The data of each window are cut off after its last pixel, which is what makes reads
past its end fault in spite of the pixels that follow in the image.
-/

namespace Raster

theorem Rect.ofSize_contains_iff (size : Size) (rect : Rect) :
    (Rect.ofSize size).contains rect = true ↔
      rect.origin.x.toNat + rect.size.width.toNat ≤ size.width.toNat ∧
        rect.origin.y.toNat + rect.size.height.toNat ≤ size.height.toNat := by
  simp [contains, ofSize]

/-- Where the last rectangle of a chain starts in the coordinates of the first one's parent: the sum
of all origins. -/
def Rect.totalOffset : List Rect → Nat × Nat
  | [] => (0, 0)
  | rect :: rest =>
    (rect.origin.x.toNat + (totalOffset rest).1, rect.origin.y.toNat + (totalOffset rest).2)

namespace View

variable {α : Type}

/-- The view shows the pixels of its parent from column `dx` and row `dy` on. -/
structure IsWindowOf (v parent : View α) (dx dy : Nat) : Prop where
  wellFormed : v.WellFormed
  stride_eq : v.stride = parent.stride
  width_le : dx + v.width.toNat ≤ parent.width.toNat
  height_le : dy + v.height.toNat ≤ parent.height.toNat
  get?_data : ∀ x y, x < v.width.toNat → y < v.height.toNat →
    v.data.get? (y * v.stride + x) = parent.data.get? ((dy + y) * v.stride + (dx + x))

theorem IsWindowOf.refl {v : View α} (wf : v.WellFormed) : v.IsWindowOf v 0 0 where
  wellFormed := wf
  stride_eq := rfl
  width_le := Nat.le_of_eq (Nat.zero_add _)
  height_le := Nat.le_of_eq (Nat.zero_add _)
  get?_data x y _ _ := by rw [Nat.zero_add, Nat.zero_add]

theorem IsWindowOf.trans {u v w : View α} {dx dy dx' dy' : Nat} (inner : u.IsWindowOf v dx' dy')
    (outer : v.IsWindowOf w dx dy) : u.IsWindowOf w (dx + dx') (dy + dy') where
  wellFormed := inner.wellFormed
  stride_eq := inner.stride_eq.trans outer.stride_eq
  width_le := by
    have := inner.width_le
    have := outer.width_le
    omega
  height_le := by
    have := inner.height_le
    have := outer.height_le
    omega
  get?_data x y column row := by
    have innerColumns := inner.width_le
    have innerRows := inner.height_le
    have same := outer.get?_data (dx' + x) (dy' + y) (by omega) (by omega)
    rw [← inner.stride_eq] at same
    rw [inner.get?_data x y column row, same, Nat.add_assoc, Nat.add_assoc]

/-! ### One window -/

theorem subView_of_not_contains (v : View α) (rect : Rect)
    (outside : (Rect.ofSize v.size).contains rect = false) :
    v.subView rect = .error (.error (.viewOutOfBounds rect v.size)) := by
  unfold subView
  rw [outside]
  rfl

/-- Without pixels a window needs no data, wherever it lies. -/
private theorem isWindowOf_empty (v : View α) (wf : v.WellFormed) (rect : Rect)
    (inside : (Rect.ofSize v.size).contains rect = true) (empty : rect.area = 0) :
    (⟨v.data.empty, rect.size.width, rect.size.height, v.stride⟩ : View α).IsWindowOf v
      rect.origin.x.toNat rect.origin.y.toNat := by
  obtain ⟨columns, rows⟩ := (Rect.ofSize_contains_iff v.size rect).mp inside
  have narrow := wf.width_le
  refine ⟨⟨?_, wf.stride_lt, ?_⟩, rfl, columns, rows, fun x y column row => ?_⟩
  · exact Nat.le_trans (Nat.le_of_add_left_le columns) narrow
  · exact (if_pos empty).symm
  · have positive : y * rect.size.width.toNat + x < rect.area :=
      RowMajor.index_lt x y _ _ column row
    rw [empty] at positive
    exact absurd positive (Nat.not_lt_zero _)

/-- A rectangle with pixels is cut out of the data from its first to its last pixel. -/
private theorem isWindowOf_extract (v : View α) (wf : v.WellFormed) (rect : Rect)
    (inside : (Rect.ofSize v.size).contains rect = true) (pixels : rect.area ≠ 0) :
    ∃ data, v.data.extract (rect.origin.y.toNat * v.stride + rect.origin.x.toNat)
        ((rect.origin.y.toNat + rect.size.height.toNat - 1) * v.stride + rect.origin.x.toNat +
          rect.size.width.toNat) = .ok data ∧
      (⟨data, rect.size.width, rect.size.height, v.stride⟩ : View α).IsWindowOf v
        rect.origin.x.toNat rect.origin.y.toNat := by
  obtain ⟨columns, rows⟩ := (Rect.ofSize_contains_iff v.size rect).mp inside
  obtain ⟨before, last, span⟩ := span_of_pixels
    (⟨v.data, rect.size.width, rect.size.height, v.stride⟩ : View α) pixels
  have nonempty : 0 < rect.size.width.toNat := by
    apply Nat.pos_of_ne_zero
    intro noColumns
    exact pixels (by rw [Rect.area, Size.area, noColumns, Nat.zero_mul])
  have lastColumn : rect.origin.x.toNat + rect.size.width.toNat - 1 < v.width.toNat := by
    have bound : rect.origin.x.toNat + rect.size.width.toNat ≤ v.width.toNat := columns
    omega
  have lastRow : rect.origin.y.toNat + before < v.height.toNat := by
    have bound : rect.origin.y.toNat + rect.size.height.toNat ≤ v.height.toNat := rows
    simp only at last
    omega
  have lastPixel := v.offset_lt wf _ _ lastColumn lastRow
  have stop : rect.origin.y.toNat + rect.size.height.toNat - 1 = rect.origin.y.toNat + before := by
    simp only at last
    omega
  have split : (rect.origin.y.toNat + before) * v.stride =
      rect.origin.y.toNat * v.stride + before * v.stride := Nat.add_mul _ _ _
  rw [stop]
  obtain ⟨data, found, length, same⟩ := v.data.extract_eq_ok
    (rect.origin.y.toNat * v.stride + rect.origin.x.toNat)
    ((rect.origin.y.toNat + before) * v.stride + rect.origin.x.toNat + rect.size.width.toNat)
    (by omega) (by omega)
  have counted : data.length = before * v.stride + rect.size.width.toNat := by omega
  have windowWf : (⟨data, rect.size.width, rect.size.height, v.stride⟩ : View α).WellFormed :=
    ⟨Nat.le_trans (Nat.le_of_add_left_le columns) wf.width_le, wf.stride_lt,
      counted.trans span.symm⟩
  refine ⟨data, found, windowWf, rfl, columns, rows, fun x y column row => ?_⟩
  have here : y * v.stride + x < data.length := offset_lt _ windowWf x y column row
  rw [same _ (length ▸ here), Nat.add_mul]
  dsimp only
  congr 1
  omega

/-- A rectangle that lies in the view has a window. -/
theorem subView_of_contains (v : View α) (wf : v.WellFormed) (rect : Rect)
    (inside : (Rect.ofSize v.size).contains rect = true) :
    ∃ u, v.subView rect = .ok u ∧ u.size = rect.size ∧
      u.IsWindowOf v rect.origin.x.toNat rect.origin.y.toNat := by
  unfold subView
  rw [inside]
  by_cases empty : rect.area = 0
  · refine ⟨⟨v.data.empty, rect.size.width, rect.size.height, v.stride⟩, ?_, rfl, ?_⟩
    · rw [if_neg (by simp), if_pos empty]
      rfl
    · exact v.isWindowOf_empty wf rect inside empty
  · obtain ⟨data, found, window⟩ := v.isWindowOf_extract wf rect inside empty
    refine ⟨⟨data, rect.size.width, rect.size.height, v.stride⟩, ?_, rfl, window⟩
    rw [if_neg (by simp), if_neg empty]
    simp only [found]
    rfl

theorem isWindowOf_of_subView (v u : View α) (wf : v.WellFormed) (rect : Rect)
    (returned : v.subView rect = .ok u) :
    u.size = rect.size ∧ u.IsWindowOf v rect.origin.x.toNat rect.origin.y.toNat := by
  cases inside : (Rect.ofSize v.size).contains rect with
  | false =>
    rw [v.subView_of_not_contains rect inside] at returned
    cases returned
  | true =>
    obtain ⟨window, found, size, isWindow⟩ := v.subView_of_contains wf rect inside
    rw [found] at returned
    cases returned
    exact ⟨size, isWindow⟩

/-! ### Chains -/

/-- The last of a chain of windows is a window, and the origins along the chain add up. -/
theorem isWindowOf_of_subViews (rects : List Rect) (v u : View α) (wf : v.WellFormed)
    (returned : v.subViews rects = .ok u) :
    u.size = (rects.getLast?.map Rect.size).getD v.size ∧
      u.IsWindowOf v (Rect.totalOffset rects).1 (Rect.totalOffset rects).2 := by
  -- The rest of the chain is a chain on the first window, so the induction is over all parents.
  induction rects generalizing v with
  | nil =>
    cases returned
    exact ⟨rfl, .refl wf⟩
  | cons rect rest ih =>
    simp only [subViews, List.foldlM_cons, bind_eq_ok_iff] at returned
    obtain ⟨window, first, others⟩ := returned
    obtain ⟨size, isWindow⟩ := v.isWindowOf_of_subView window wf rect first
    obtain ⟨lastSize, nested⟩ := ih window isWindow.wellFormed others
    refine ⟨?_, nested.trans isWindow⟩
    rw [lastSize, size, List.getLast?_cons]
    cases rest.getLast? <;> rfl

/-! ### Reads through windows -/

theorem IsWindowOf.get_eq {u v : View α} {dx dy : Nat} (window : u.IsWindowOf v dx dy)
    (wf : v.WellFormed) (x y : UInt32) (column : x < u.width) (row : y < u.height) :
    u.get x y = v.get (.ofNat (dx + x.toNat)) (.ofNat (dy + y.toNat)) := by
  have innerColumn : dx + x.toNat < v.width.toNat :=
    Nat.lt_of_lt_of_le (Nat.add_lt_add_left column dx) window.width_le
  have innerRow : dy + y.toNat < v.height.toNat :=
    Nat.lt_of_lt_of_le (Nat.add_lt_add_left row dy) window.height_le
  rw [u.get_of_lt window.wellFormed x y column row,
    v.get_of_lt wf _ _ (Coordinate.ofNat_lt _ _ innerColumn) (Coordinate.ofNat_lt _ _ innerRow),
    Coordinate.toNat_ofNat _ _ innerColumn, Coordinate.toNat_ofNat _ _ innerRow,
    ← window.stride_eq]
  apply Slice.read_congr
  · rw [window.stride_eq]
    exact v.offset_lt wf _ _ innerColumn innerRow
  · exact window.get?_data x.toNat y.toNat column row

end View

namespace Image

variable {α : Type}

theorem WellFormed.asView {img : Image α} (wf : img.WellFormed) : img.asView.WellFormed where
  width_le := Nat.le_refl _
  stride_lt := img.width.toNat_lt
  length_data := by
    have counted : img.data.length = img.asView.pixelCount := wf.length_data
    by_cases pixels : img.asView.pixelCount = 0
    · rw [View.span, if_pos pixels]
      exact counted.trans pixels
    · obtain ⟨before, last, span⟩ := img.asView.span_of_pixels pixels
      have area : img.asView.pixelCount = img.width.toNat * img.height.toNat := rfl
      have rows : img.height.toNat = before + 1 := last
      rw [span]
      refine counted.trans ?_
      rw [area, rows, Nat.mul_succ, Nat.mul_comm]
      rfl

theorem get_asView (img : Image α) (wf : img.WellFormed) (x y : UInt32) (column : x < img.width)
    (row : y < img.height) : img.asView.get x y = img.get (.cell x y) := by
  rw [View.get_of_lt img.asView wf.asView x y column row, img.get_cell x y column row]
  rfl

end Image

theorem View.Reachable.wellFormed {f : PixelFormat} {v : View (Pixel f)} (reachable : v.Reachable) :
    v.WellFormed := by
  obtain ⟨img, made, rects, accepted⟩ := reachable
  have wf := made.wellFormed.asView
  exact (View.isWindowOf_of_subViews rects img.asView v wf accepted).2.wellFormed

end Raster
