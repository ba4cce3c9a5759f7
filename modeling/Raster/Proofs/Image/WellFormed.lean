import Raster.Edit
import Raster.Channels
import Raster.Proofs.Storage.Shape
import Raster.Proofs.Success

/-!
# Well-formed images

An image is well formed if its storage holds one item for each pixel of its size, in the kind that
this count selects. Every way to make an image makes a well-formed one, from whatever sources, and
every way to change one keeps it well formed, whether it succeeds or not.

Width and height change together with the storage in one place only, `Image.resize`. All other
changes leave the length and the kind of the storage alone.
-/

namespace Raster

namespace Image

variable {α β : Type} {img : Image α}

structure WellFormed (img : Image α) : Prop where
  /-- The visible items are as many as the pixels, counted without a bound. -/
  length_data : img.data.length = img.size.area
  isInline_iff : img.isInline = true ↔ img.size.area ≤ inlineCapacity
  /-- Items on the heap are the visible ones, with nothing spare. -/
  size_of_heap : ∀ items, img.storage = .heap items → items.size = img.size.area

theorem length_data_eq (img : Image α) : img.data.length = img.storage.length := by
  unfold data
  cases img.storage <;> rfl

theorem wellFormed_iff (img : Image α) : img.WellFormed ↔ img.storage.Fits img.size.area := by
  constructor
  · intro wf
    refine ⟨img.length_data_eq ▸ wf.length_data, ?_⟩
    have selected : img.storage.kind = .inline ↔ img.size.area ≤ inlineCapacity :=
      img.storage.isInline_iff.symm.trans wf.isInline_iff
    cases kind : img.storage.kind <;> simp_all
  · intro fits
    refine ⟨img.length_data_eq.trans fits.length_eq, fits.isInline_iff, fun items onHeap => ?_⟩
    have length := fits.length_eq
    rwa [onHeap] at length

theorem WellFormed.fits (wf : img.WellFormed) : img.storage.Fits img.size.area :=
  (wellFormed_iff img).mp wf

/-- Another storage of the same length and kind does not harm. -/
theorem WellFormed.withStorage (wf : img.WellFormed) (storage : Storage α inlineCapacity)
    (sameLength : storage.length = img.storage.length)
    (sameKind : storage.kind = img.storage.kind) : ({ img with storage } : Image α).WellFormed :=
  (wellFormed_iff _).mpr (wf.fits.of_eq sameLength sameKind)

/-! ### Construction -/

theorem wellFormed_blank [Inhabited α] : (blank : Image α).WellFormed :=
  (wellFormed_iff _).mpr Storage.fits_blank

theorem wellFormed_filled (width height : UInt32) (value : α) :
    (filled width height value).WellFormed :=
  (wellFormed_iff _).mpr (Storage.fits_filled _ value)

theorem wellFormed_ofArray [Inhabited α] (width height : UInt32) (pixels : Array α)
    (made : Image α) (returned : ofArray width height pixels = .ok made) : made.WellFormed := by
  unfold ofArray at returned
  dsimp only at returned
  split at returned
  next enough =>
    cases returned
    apply (wellFormed_iff _).mpr
    exact enough ▸ Storage.fits_ofArray pixels
  next => cases returned

/-! ### Change of size -/

theorem size_resize [Inhabited α] (img : Image α) (size : Size) (fill : Option α) :
    (img.resize size fill).1.size = size := by
  unfold resize
  split
  next same => exact same.symm
  next => rfl

theorem wellFormed_resize [Inhabited α] (wf : img.WellFormed) (size : Size) (fill : Option α) :
    (img.resize size fill).1.WellFormed := by
  unfold resize
  split
  · exact wf
  · exact (wellFormed_iff _).mpr (Storage.fits_setLength img.storage size.area fill)

/-! ### Writing -/

theorem wellFormed_apply (wf : img.WellFormed) (rule : Nat → α → α) :
    (img.apply rule).WellFormed :=
  wf.withStorage _ (Storage.length_modify img.storage rule) (Storage.kind_modify img.storage rule)

theorem wellFormed_set (wf : img.WellFormed) (position : Position) (value : α) (new : Image α)
    (returned : img.set position value = .ok new) : new.WellFormed := by
  simp only [set, bind_eq_ok_iff, pure_eq_ok_iff, Storage.set_eq_ok_iff] at returned
  obtain ⟨i, -, storage, ⟨-, rfl⟩, rfl⟩ := returned
  exact wf.withStorage _ (Storage.length_put _ i value) (Storage.kind_put _ i value)

theorem wellFormed_applyLine (wf : img.WellFormed) (y : UInt32) (rule : Nat → α → α)
    (new : Image α) (returned : img.applyLine y rule = .ok new) : new.WellFormed := by
  simp only [applyLine, bind_eq_ok_iff, pure_eq_ok_iff] at returned
  obtain ⟨start, -, rfl⟩ := returned
  exact wellFormed_apply wf _

theorem wellFormed_writeEach (wf : img.WellFormed) (rule : Slice α → Nat → Except Fault α) :
    (img.writeEach rule).1.WellFormed :=
  wf.withStorage _ (Storage.length_writeEach img.storage _) (Storage.kind_writeEach img.storage _)

theorem wellFormed_setInLine (wf : img.WellFormed) (y : UInt32) (x : Nat) (value : α)
    (new : Image α) (returned : img.setInLine y x value = .ok new) : new.WellFormed := by
  simp only [setInLine, bind_eq_ok_iff] at returned
  obtain ⟨start, -, written⟩ := returned
  split at written
  · exact wellFormed_set wf _ value new ((liftFault_eq_ok_iff _ new).mp written)
  · cases written

/-! ### Channels -/

theorem wellFormed_withPixels [Inhabited β] (img : Image α) (pixels : Array β) :
    (img.withPixels pixels).WellFormed :=
  wellFormed_apply (wellFormed_filled _ _ _) _

theorem wellFormed_joinComplex (re im : Image Single) (joined : Image Complex)
    (returned : joinComplex re im = .ok joined) : joined.WellFormed := by
  simp only [joinComplex, bind_eq_ok_iff, pure_eq_ok_iff] at returned
  obtain ⟨-, -, rfl⟩ := returned
  exact wellFormed_withPixels re _

theorem wellFormed_grayscale (toDouble : α → Double) (r g b : Image α) (gray : Image Single)
    (returned : grayscale toDouble r g b = .ok gray) : gray.WellFormed := by
  simp only [grayscale, bind_eq_ok_iff, pure_eq_ok_iff] at returned
  obtain ⟨-, -, -, -, rfl⟩ := returned
  exact wellFormed_withPixels r _

end Image

end Raster
