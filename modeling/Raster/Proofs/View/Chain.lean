import Raster.Proofs.View.Window

/-!
# What chains of windows show

The view at the end of a chain of accepted rectangles shows, in its own coordinates, the pixels of
the image from the sum of the origins on. All ways to read it agree on that, and all refuse or fault
outside of it. This covers chains without rectangles, which show the whole image, and views without
pixels, which may lie anywhere up to the far edges.
-/

namespace Raster

namespace View

variable {α : Type} [Inhabited α]

/-- Every read of the view inside its size gives a pixel of the image, `dx` columns to the right and
`dy` rows above, and no read outside gives anything. -/
structure ShowsFrom (v : View α) (img : Image α) (dx dy : Nat) : Prop where
  width_le : dx + v.width.toNat ≤ img.width.toNat
  height_le : dy + v.height.toNat ≤ img.height.toNat
  /-- One pixel, read in all ways. -/
  pixel : ∀ x y, x < v.width → y < v.height → ∃ p,
    img.get (.cell (.ofNat (dx + x.toNat)) (.ofNat (dy + y.toNat))) = .ok p ∧
      v.get x y = .ok p ∧
      v.getLinear (y.toNat * v.width.toNat + x.toNat) = .ok p ∧
      v.read (y.toNat * v.width.toNat + x.toNat) = .ok p ∧
      ∃ row, v.line y = .ok row ∧ row.read x.toNat = .ok p
  /-- All pixels in row-major order: as they are, with their positions, and as an image. -/
  pixels : ∃ values listed copied, v.values = .ok values ∧ v.pixels = .ok listed ∧
    v.toImage = .ok copied ∧ values.size = v.size.area ∧ listed.length = v.size.area ∧
    copied.size = v.size ∧ copied.data.toList = values.toList ∧
    ∀ x y, x < v.width → y < v.height → ∃ p,
      img.get (.cell (.ofNat (dx + x.toNat)) (.ofNat (dy + y.toNat))) = .ok p ∧
        values[y.toNat * v.width.toNat + x.toNat]? = some p ∧
        listed[y.toNat * v.width.toNat + x.toNat]? = some (x, y, p)
  outside : ∀ x y, ¬(x < v.width ∧ y < v.height) →
    v.get x y = .error (.pixelOutsideView x y v.width v.height)
  outside_linear : ∀ i, v.size.area ≤ i →
    v.getLinear i = .error (.indexOutsideView i v.width v.height) ∧
      ∃ fault, v.read i = .error fault
  line_inside : ∀ y, y < v.height → ∃ row, v.line y = .ok row ∧ row.length = v.width.toNat
  line_outside : ∀ y, v.height ≤ y → v.line y = .error (.error (.lineOutOfRange y v.height))

/-- A window onto the view of an image shows its pixels. -/
theorem IsWindowOf.showsFrom {v : View α} {img : Image α} {dx dy : Nat} (wf : img.WellFormed)
    (window : v.IsWindowOf img.asView dx dy) : v.ShowsFrom img dx dy := by
  have vWf := window.wellFormed
  have translated (x y : UInt32) (column : x < v.width) (row : y < v.height) :
      img.get (.cell (.ofNat (dx + x.toNat)) (.ofNat (dy + y.toNat))) = v.get x y := by
    have inColumns : dx + x.toNat < img.width.toNat :=
      Nat.lt_of_lt_of_le (Nat.add_lt_add_left column dx) window.width_le
    have inRows : dy + y.toNat < img.height.toNat :=
      Nat.lt_of_lt_of_le (Nat.add_lt_add_left row dy) window.height_le
    rw [window.get_eq wf.asView x y column row]
    exact (img.get_asView wf _ _ (Coordinate.ofNat_lt _ _ inColumns)
      (Coordinate.ofNat_lt _ _ inRows)).symm
  refine ⟨window.width_le, window.height_le, fun x y column row => ?_, ?_, fun x y outside => ?_,
    fun i outside => ⟨?_, v.read_of_le vWf i outside⟩, fun y inside => ?_, fun y outside => ?_⟩
  · obtain ⟨p, found⟩ := v.exists_get vWf x y column row
    obtain ⟨line, returned, -, reads⟩ := v.line_of_lt vWf y row
    refine ⟨p, (translated x y column row).trans found, found, ?_, ?_, line, returned, ?_⟩
    · rw [v.getLinear_index vWf x y column row, found]
    · rw [v.read_index vWf x y column row, found]
    · rw [reads x column, found]
  · obtain ⟨values, all, count, reads⟩ := v.values_eq_ok vWf
    obtain ⟨listed, positioned, length, entries⟩ := v.pixels_eq_ok vWf
    obtain ⟨copied, owned, size, same⟩ := v.toImage_eq_ok values all count
    refine ⟨values, listed, copied, all, positioned, owned, count, length, size, same,
      fun x y column row => ?_⟩
    obtain ⟨p, found, entry⟩ := entries x y column row
    refine ⟨p, (translated x y column row).trans found, ?_, entry⟩
    rw [reads, v.read_index vWf x y column row, found]
  · exact if_neg outside
  · exact if_neg (Nat.not_lt.mpr outside)
  · obtain ⟨line, returned, length, -⟩ := v.line_of_lt vWf y inside
    exact ⟨line, returned, length⟩
  · exact if_pos outside

end View

variable {f : PixelFormat}

/-- The last of a chain of windows onto a reachable image has the size of the last rectangle, and
shows the image from the sum of all origins on. -/
theorem View.subViews_showsFrom (img : Image (Pixel f)) (reachable : img.Reachable)
    (rects : List Rect) (v : View (Pixel f)) (accepted : img.asView.subViews rects = .ok v) :
    v.size = (rects.getLast?.map Rect.size).getD img.size ∧
      v.ShowsFrom img (Rect.totalOffset rects).1 (Rect.totalOffset rects).2 := by
  have wf := reachable.wellFormed
  obtain ⟨size, window⟩ := isWindowOf_of_subViews rects img.asView v wf.asView accepted
  exact ⟨size, window.showsFrom wf⟩

/-- Four columns and three rows, and of these the far corner. -/
def cornerChain : List Rect :=
  [⟨⟨1, 1⟩, ⟨4, 3⟩⟩, ⟨⟨2, 1⟩, ⟨2, 2⟩⟩]

theorem View.subViews_showsFrom_cornerChain :
    Image.ramp.Reachable ∧ ∃ v, Image.ramp.asView.subViews cornerChain = .ok v ∧
      v.size = ⟨2, 2⟩ ∧ v.ShowsFrom Image.ramp 3 2 := by
  obtain ⟨v, accepted⟩ : ∃ v, Image.ramp.asView.subViews cornerChain = .ok v := ⟨_, rfl⟩
  obtain ⟨size, shows_⟩ :=
    View.subViews_showsFrom Image.ramp Image.ramp_reachable cornerChain v accepted
  exact ⟨Image.ramp_reachable, v, accepted, size, shows_⟩

end Raster
