import Raster.Proofs.Image.Visible
import Raster.Proofs.Workspace.Reachable

/-!
# Planes of channels

Taking an image apart makes one plane for each channel, of the size of the image. Nothing is lost in
this, so the channels can be put together again. The size is kept apart from the pixels, which
matters for planes without any: rows without columns are not columns without rows.
-/

namespace Raster

namespace Image

variable {α β : Type}

theorem WellFormed.sameVisible_of_items {a b : Image α} (wfA : a.WellFormed) (wfB : b.WellFormed)
    (size : a.size = b.size) (items : a.data.toList = b.data.toList) : a.SameVisible b :=
  wfA.sameVisible wfB size fun i _ => congrArg (·[i]?) items

/-! ### Images of given pixels -/

theorem toList_withPixels [Inhabited β] (img : Image α) (wf : img.WellFormed) (pixels : Array β)
    (enough : pixels.size = img.data.length) :
    (img.withPixels pixels).data.toList = pixels.toList := by
  have slots : (zeroed img.width img.height : Image β).data.length = img.size.area :=
    (wellFormed_filled _ _ _).length_data
  exact toList_overwrite _ pixels (enough.trans (wf.length_data.trans slots.symm))

theorem toList_channel [Inhabited β] (img : Image α) (wf : img.WellFormed) (select : α → β) :
    (img.channel select).data.toList = img.data.toList.map select := by
  have enough : (img.data.toArray.map select).size = img.data.length :=
    Array.size_map.trans img.data.size_toArray
  exact (img.toList_withPixels wf _ enough).trans Array.toList_map

theorem wellFormed_channel [Inhabited β] (img : Image α) (select : α → β) :
    (img.channel select).WellFormed :=
  wellFormed_withPixels img _

/-! ### Planes -/

/-- At each position where the image has a pixel, the plane has what is selected of that pixel. -/
structure IsPlane (img : Image α) (select : α → β) (plane : Image β) : Prop where
  size_eq : plane.size = img.size
  get_iff : ∀ position v, plane.get position = .ok v ↔
    ∃ p, img.get position = .ok p ∧ select p = v

theorem isPlane_channel [Inhabited β] (img : Image α) (wf : img.WellFormed) (select : α → β) :
    IsPlane img select (img.channel select) where
  size_eq := rfl
  get_iff := img.get_map_eq_ok_iff _ select rfl (img.toList_channel wf select)

/-! ### Sizes -/

theorem size_eq_iff (a : Image α) (b : Image β) :
    a.size = b.size ↔ a.width = b.width ∧ a.height = b.height :=
  Iff.of_eq (Size.mk.injEq ..)

theorem requireSameSize_of_eq (a : Image α) (b : Image β) (same : a.size = b.size) :
    requireSameSize a b = .ok () :=
  if_pos same

theorem requireSameSize_of_ne (a : Image α) (b : Image β) (different : a.size ≠ b.size) :
    requireSameSize a b = .error (.geometryMismatch a.size b.size) :=
  if_neg different

/-- A plane depends on the size and on what is selected, down to hidden slots. -/
theorem channel_congr [Inhabited β] (img other : Image α) (select : α → β)
    (size : img.size = other.size)
    (items : img.data.toList.map select = other.data.toList.map select) :
    img.channel select = other.channel select := by
  obtain ⟨width, height⟩ := (img.size_eq_iff other).mp size
  have values : img.data.toArray.map select = other.data.toArray.map select := by
    rw [← Array.toList_inj, Array.toList_map, Array.toList_map]
    exact items
  unfold channel withPixels
  rw [values, width, height]

/-! ### Real and imaginary parts -/

theorem joinComplex_of_size_eq (re im : Image Single) (same : re.size = im.size) :
    joinComplex re im =
      .ok (re.withPixels (Array.zipWith Complex.mk re.data.toArray im.data.toArray)) := by
  rw [joinComplex, requireSameSize_of_eq re im same]
  rfl

theorem joinComplex_of_size_ne (re im : Image Single) (different : re.size ≠ im.size) :
    joinComplex re im = .error (.geometryMismatch re.size im.size) := by
  rw [joinComplex, requireSameSize_of_ne re im different]
  rfl

theorem exists_joinComplex_iff (re im : Image Single) :
    (∃ joined, joinComplex re im = .ok joined) ↔ re.size = im.size := by
  constructor
  · rintro ⟨joined, returned⟩
    apply Classical.byContradiction
    intro different
    rw [joinComplex_of_size_ne re im different] at returned
    cases returned
  · intro same
    exact ⟨_, joinComplex_of_size_eq re im same⟩

theorem toList_joinComplex (re im : Image Single) (wfRe : re.WellFormed) (wfIm : im.WellFormed)
    (joined : Image Complex) (returned : joinComplex re im = .ok joined) :
    joined.size = re.size ∧
      joined.data.toList = List.zipWith Complex.mk re.data.toList im.data.toList := by
  have same := (exists_joinComplex_iff re im).mp ⟨joined, returned⟩
  rw [joinComplex_of_size_eq re im same, Except.ok.injEq] at returned
  subst returned
  -- Pairing stops with the shorter part, so it takes parts of one size to lose nothing.
  have lengths : im.data.length = re.data.length := by
    rw [wfIm.length_data, wfRe.length_data, same]
  refine ⟨rfl, ?_⟩
  rw [re.toList_withPixels wfRe _ (by simp [Slice.size_toArray, lengths]), Array.toList_zipWith]
  rfl

/-- An image is put together again from its two parts. -/
theorem join_splitComplex (img : Image Complex) (wf : img.WellFormed) :
    ∃ joined, joinComplex img.splitComplex.1 img.splitComplex.2 = .ok joined ∧
      joined.SameVisible img := by
  have reWf := img.wellFormed_channel Complex.re
  have imWf := img.wellFormed_channel Complex.im
  obtain ⟨joined, returned⟩ :=
    (exists_joinComplex_iff (img.channel Complex.re) (img.channel Complex.im)).mpr rfl
  obtain ⟨size, items⟩ := toList_joinComplex _ _ reWf imWf joined returned
  refine ⟨joined, returned, ?_⟩
  apply (wellFormed_joinComplex _ _ joined returned).sameVisible_of_items wf size
  rw [items, img.toList_channel wf, img.toList_channel wf, List.zipWith_map, List.zipWith_self]
  exact List.map_id _

/-- Two parts that are put together can be taken apart again. -/
theorem split_joinComplex (re im : Image Single) (wfRe : re.WellFormed) (wfIm : im.WellFormed)
    (joined : Image Complex) (returned : joinComplex re im = .ok joined) :
    joined.splitComplex.1.SameVisible re ∧ joined.splitComplex.2.SameVisible im := by
  have same := (exists_joinComplex_iff re im).mp ⟨joined, returned⟩
  have wf := wellFormed_joinComplex re im joined returned
  have lengths : re.data.toList.length = im.data.toList.length := by
    rw [wfRe.length_toList, wfIm.length_toList, same]
  obtain ⟨size, items⟩ := toList_joinComplex re im wfRe wfIm joined returned
  constructor
  · apply (joined.wellFormed_channel Complex.re).sameVisible_of_items wfRe size
    rw [joined.toList_channel wf, items, List.map_zipWith]
    exact List.ext_getElem (by simp [lengths]) (by simp)
  · apply (joined.wellFormed_channel Complex.im).sameVisible_of_items wfIm (size.trans same)
    rw [joined.toList_channel wf, items, List.map_zipWith]
    exact List.ext_getElem (by simp [lengths]) (by simp)

/-! ### Colours -/

/-- The planes of colours determine them, since each colour is read off the same index of all. -/
theorem map_channels_injective {bits : Nat} {cs ds : List (Rgba bits)}
    (r : cs.map Rgba.r = ds.map Rgba.r) (g : cs.map Rgba.g = ds.map Rgba.g)
    (b : cs.map Rgba.b = ds.map Rgba.b) (a : cs.map Rgba.a = ds.map Rgba.a) : cs = ds := by
  have zipped (es : List (Rgba bits)) : es.map (fun c => (c.r, c.g, c.b, c.a)) =
      (es.map Rgba.r).zip ((es.map Rgba.g).zip ((es.map Rgba.b).zip (es.map Rgba.a))) := by
    simp only [List.zip_map']
  have same : cs.map (fun c => (c.r, c.g, c.b, c.a)) = ds.map fun c => (c.r, c.g, c.b, c.a) := by
    rw [zipped, zipped, r, g, b, a]
  apply (List.map_inj_right _).mp same
  rintro ⟨r, g, b, a⟩ ⟨r', g', b', a'⟩ equal
  simpa using equal

/-- The planes are those of the four channels, in order. -/
structure HasPlanes {bits : Nat} (img : Image (Rgba bits))
    (planes : Image (Level bits) × Image (Level bits) × Image (Level bits) × Image (Level bits)) :
    Prop where
  r : IsPlane img Rgba.r planes.1
  g : IsPlane img Rgba.g planes.2.1
  b : IsPlane img Rgba.b planes.2.2.1
  a : IsPlane img Rgba.a planes.2.2.2

theorem hasPlanes_splitRgba {bits : Nat} (img : Image (Rgba bits)) (wf : img.WellFormed) :
    img.HasPlanes img.splitRgba where
  r := img.isPlane_channel wf Rgba.r
  g := img.isPlane_channel wf Rgba.g
  b := img.isPlane_channel wf Rgba.b
  a := img.isPlane_channel wf Rgba.a

/-- The planes of the two images cannot be told apart. -/
structure SamePlanes {bits : Nat} (img other : Image (Rgba bits)) : Prop where
  r : img.splitRgba.1.SameVisible other.splitRgba.1
  g : img.splitRgba.2.1.SameVisible other.splitRgba.2.1
  b : img.splitRgba.2.2.1.SameVisible other.splitRgba.2.2.1
  a : img.splitRgba.2.2.2.SameVisible other.splitRgba.2.2.2

theorem SamePlanes.sameVisible {bits : Nat} {img other : Image (Rgba bits)}
    (planes : img.SamePlanes other) (wf : img.WellFormed) (otherWf : other.WellFormed) :
    img.SameVisible other := by
  have items (select : Rgba bits → Level bits)
      (same : (img.channel select).SameVisible (other.channel select)) :
      img.data.toList.map select = other.data.toList.map select := by
    rw [← img.toList_channel wf, ← other.toList_channel otherWf, same.toList_eq]
  apply wf.sameVisible_of_items otherWf planes.r.size_eq
  exact map_channels_injective (items _ planes.r) (items _ planes.g) (items _ planes.b)
    (items _ planes.a)

/-! ### Inverses -/

/-- The parts hold what they are called after, and are put together to the image again. -/
structure SplitsExactly (img : Image Complex) : Prop where
  re : IsPlane img Complex.re img.splitComplex.1
  im : IsPlane img Complex.im img.splitComplex.2
  joins : ∃ joined, joinComplex img.splitComplex.1 img.splitComplex.2 = .ok joined ∧
    joined.SameVisible img

theorem splitsExactly (img : Image Complex) (wf : img.WellFormed) : img.SplitsExactly where
  re := img.isPlane_channel wf Complex.re
  im := img.isPlane_channel wf Complex.im
  joins := join_splitComplex img wf

/-- The parts are put together exactly if they have the same width and the same height, and the
image of them is taken apart into them again. -/
structure JoinsExactly (re im : Image Single) : Prop where
  joins_iff : (∃ joined, joinComplex re im = .ok joined) ↔
    re.width = im.width ∧ re.height = im.height
  refused : ¬(re.width = im.width ∧ re.height = im.height) →
    joinComplex re im = .error (.geometryMismatch re.size im.size)
  split : ∀ joined, joinComplex re im = .ok joined →
    joined.splitComplex.1.SameVisible re ∧ joined.splitComplex.2.SameVisible im

theorem joinsExactly (re im : Image Single) (wfRe : re.WellFormed) (wfIm : im.WellFormed) :
    JoinsExactly re im := by
  have same_iff := re.size_eq_iff im
  refine ⟨(exists_joinComplex_iff re im).trans same_iff, fun different => ?_, ?_⟩
  · exact joinComplex_of_size_ne re im (mt same_iff.mp different)
  · exact split_joinComplex re im wfRe wfIm

/-- Taking an image apart and putting it together are inverse to each other, down to the words of
values that are not numbers, and no colours are lost or exchanged. -/
theorem channels_invertible :
    (∀ img : Image (Pixel .complexFloat), img.Reachable → SplitsExactly img) ∧
    (∀ re im : Image (Pixel .grayFloat), re.Reachable → im.Reachable → JoinsExactly re im) ∧
    (∀ img : Image (Pixel .rgba8), img.Reachable → HasPlanes img img.splitRgba) ∧
    ∀ img other : Image (Pixel .rgba8), img.Reachable → other.Reachable →
      SamePlanes img other → img.SameVisible other := by
  refine ⟨fun img made => ?_, fun re im madeRe madeIm => ?_, fun img made => ?_,
    fun img other made madeOther planes => ?_⟩
  · exact splitsExactly img made.wellFormed
  · exact joinsExactly re im madeRe.wellFormed madeIm.wellFormed
  · exact hasPlanes_splitRgba img made.wellFormed
  · exact planes.sameVisible made.wellFormed madeOther.wellFormed

/-- Values that are not numbers, with different payloads, zeros of both signs and an infinity. -/
def specials : Image (Pixel .complexFloat) :=
  ⟨2, 2, .ofArray ([(0x7fc00001, 0x80000000), (0, 0xff800000), (0xffc00000, 0x7fa00000),
    (0x80000000, 0)].map fun (re, im) => (⟨Binary.ofBits re, Binary.ofBits im⟩ : Complex)).toArray⟩

def teal : Pixel .rgba8 :=
  (⟨.ofNat 10, .ofNat 200, .ofNat 130, .ofNat 0⟩ : Rgba 8)

/-- An image of special values, an image without rows, and parts with six pixels each that are wide
and tall. Of the two images of one colour, one hides pixels of another colour. -/
theorem channels_invertible_specials :
    specials.Reachable ∧ SplitsExactly specials ∧
      (∃ joined, joinComplex (zeroed 7 0 : Image Single) (zeroed 7 0) = .ok joined ∧
        joined.splitComplex.1.SameVisible (zeroed 7 0 : Image Single)) ∧
      joinComplex (zeroed 3 2 : Image Single) (zeroed 2 3) =
        .error (.geometryMismatch ⟨3, 2⟩ ⟨2, 3⟩) ∧
      HasPlanes (filled 2 3 teal) (filled 2 3 teal).splitRgba ∧
      (filled 2 3 teal).SameVisible ((zeroed 30 30).resize ⟨2, 3⟩ (some teal)).1 := by
  have specialsMade : specials.Reachable := reachable_ofArray 2 2 _ rfl
  have made (width height : UInt32) :
      (zeroed width height : Image (Pixel .grayFloat)).Reachable :=
    (reachable_iff_wellFormed _).mpr (wellFormed_filled width height _)
  obtain ⟨splits, joins, planes, injective⟩ := channels_invertible
  have flat := joins _ _ (made 7 0) (made 7 0)
  obtain ⟨joined, returned⟩ := flat.joins_iff.mpr ⟨rfl, rfl⟩
  have plainWf : (filled 2 3 teal).WellFormed := wellFormed_filled 2 3 teal
  have largeWf : (zeroed 30 30 : Image (Pixel .rgba8)).WellFormed := wellFormed_filled 30 30 _
  have plainMade := (reachable_iff_wellFormed _).mpr plainWf
  have painted := SameVisible.resize_some largeWf ⟨2, 3⟩ teal (by decide)
  have split := painted.splitRgba_eq
  refine ⟨specialsMade, splits specials specialsMade,
    ⟨joined, returned, (flat.split joined returned).1⟩, ?_, planes _ plainMade,
    injective _ _ plainMade ?_ ⟨?_, ?_, ?_, ?_⟩⟩
  · exact (joins _ _ (made 3 2) (made 2 3)).refused (by decide)
  · exact (reachable_iff_wellFormed _).mpr (wellFormed_resize largeWf _ _)
  all_goals
    rw [split]
    exact .refl _

end Image

end Raster
