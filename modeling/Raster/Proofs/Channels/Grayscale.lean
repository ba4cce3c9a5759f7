import Raster.Proofs.Channels.Planes
import Raster.Proofs.Image.Conversion

/-!
# Grayscale of planes and of colours

The brightness of an image is computed from its planes, from its pixels one after another, and at the
leaf of a tree. Each of these reads the channels in its own way, and all of them do the same
operations on the same numbers in the same order. So the results agree in every bit, whatever
rounding does.
-/

namespace Raster.Image

variable {α : Type}

/-! ### Planes of different sizes -/

theorem grayscale_of_size_eq (toDouble : α → Double) (r g b : Image α) (second : r.size = g.size)
    (third : r.size = b.size) :
    grayscale toDouble r g b =
      .ok (r.withPixels ((r.data.toArray.zip (g.data.toArray.zip b.data.toArray)).map
        fun (r, g, b) => (luma (toDouble r) (toDouble g) (toDouble b)).toSingle)) := by
  rw [grayscale, requireSameSize_of_eq r g second, requireSameSize_of_eq r b third]
  rfl

/-- Planes are refused exactly if the second or the third one has another width or another height
than the first. Of two that have, the second one is told. -/
structure RefusesShapes (toDouble : α → Double) (r g b : Image α) : Prop where
  refused_iff : (∃ refusal, grayscale toDouble r g b = .error refusal) ↔
    ¬(r.width = g.width ∧ r.height = g.height) ∨ ¬(r.width = b.width ∧ r.height = b.height)
  second_first : r.size ≠ g.size →
    grayscale toDouble r g b = .error (.geometryMismatch r.size g.size)
  then_third : r.size = g.size → r.size ≠ b.size →
    grayscale toDouble r g b = .error (.geometryMismatch r.size b.size)

theorem refusesShapes (toDouble : α → Double) (r g b : Image α) : RefusesShapes toDouble r g b := by
  have second (different : r.size ≠ g.size) :
      grayscale toDouble r g b = .error (.geometryMismatch r.size g.size) := by
    rw [grayscale, requireSameSize_of_ne r g different]
    rfl
  have third (same : r.size = g.size) (different : r.size ≠ b.size) :
      grayscale toDouble r g b = .error (.geometryMismatch r.size b.size) := by
    rw [grayscale, requireSameSize_of_eq r g same, requireSameSize_of_ne r b different]
    rfl
  refine ⟨?_, second, third⟩
  rw [← size_eq_iff, ← size_eq_iff]
  by_cases sameG : r.size = g.size
  · by_cases sameB : r.size = b.size
    · rw [grayscale_of_size_eq toDouble r g b sameG sameB]
      constructor
      · rintro ⟨refusal, refused⟩
        cases refused
      · rintro (otherG | otherB)
        · exact absurd sameG otherG
        · exact absurd sameB otherB
    · exact ⟨fun _ => .inr sameB, fun _ => ⟨_, third sameG sameB⟩⟩
  · exact ⟨fun _ => .inl sameG, fun _ => ⟨_, second sameG⟩⟩

/-! ### Planes of one image -/

/-- The planes of one image have one size, and one pixel of each makes a pixel of the result. -/
theorem grayscale_splitRgba {bits : Nat} (toDouble : Level bits → Double) (img : Image (Rgba bits))
    (wf : img.WellFormed) :
    ∃ gray, grayscale toDouble img.splitRgba.1 img.splitRgba.2.1 img.splitRgba.2.2.1 = .ok gray ∧
      gray.WellFormed ∧ gray.size = img.size ∧ gray.data.toList = img.data.toList.map fun c =>
        (luma (toDouble c.r) (toDouble c.g) (toDouble c.b)).toSingle := by
  have lengths (select : Rgba bits → Level bits) :
      (img.channel select).data.length = img.size.area :=
    (img.wellFormed_channel select).length_data
  have items (select : Rgba bits → Level bits) :
      (img.channel select).data.toArray.toList = img.data.toList.map select :=
    img.toList_channel wf select
  refine ⟨_, grayscale_of_size_eq toDouble (img.channel Rgba.r) _ _ rfl rfl,
    wellFormed_withPixels _ _, rfl, ?_⟩
  rw [toList_withPixels _ (img.wellFormed_channel Rgba.r)]
  · simp only [splitRgba, Array.toList_map, Array.toList_zip, items, List.zip_map', List.map_map]
    rfl
  · simp only [splitRgba, Array.size_map, Array.size_zip, Slice.size_toArray, lengths, Nat.min_self]

/-! ### Opacity -/

/-- The images have the same size and the same red, green and blue. -/
structure SameColours {bits : Nat} (img other : Image (Rgba bits)) : Prop where
  size_eq : img.size = other.size
  colours : ∀ position p q, img.get position = .ok p → other.get position = .ok q →
    p.r = q.r ∧ p.g = q.g ∧ p.b = q.b

theorem SameColours.channel_eq {bits : Nat} {img other : Image (Rgba bits)}
    (same : img.SameColours other) (wf : img.WellFormed) (otherWf : other.WellFormed)
    (select : Rgba bits → Level bits)
    (isColour : ∀ p q : Rgba bits, p.r = q.r ∧ p.g = q.g ∧ p.b = q.b → select p = select q) :
    img.channel select = other.channel select := by
  apply img.channel_congr other select same.size_eq
  apply List.ext_getElem
  · rw [List.length_map, List.length_map, wf.length_toList, otherWf.length_toList, same.size_eq]
  · intro i inside inOther
    rw [List.getElem_map, List.getElem_map]
    apply isColour
    apply same.colours (.linear i)
    · exact (img.get_linear_eq_ok_iff i _).mpr (List.getElem?_eq_getElem _)
    · exact (other.get_linear_eq_ok_iff i _).mpr (List.getElem?_eq_getElem _)

theorem SameColours.grayscale_eq {bits : Nat} {img other : Image (Rgba bits)}
    (same : img.SameColours other) (wf : img.WellFormed) (otherWf : other.WellFormed)
    (toDouble : Level bits → Double) :
    grayscale toDouble img.splitRgba.1 img.splitRgba.2.1 img.splitRgba.2.2.1 =
      grayscale toDouble other.splitRgba.1 other.splitRgba.2.1 other.splitRgba.2.2.1 := by
  have r := same.channel_eq wf otherWf Rgba.r fun p q equal => equal.1
  have g := same.channel_eq wf otherWf Rgba.g fun p q equal => equal.2.1
  have b := same.channel_eq wf otherWf Rgba.b fun p q equal => equal.2.2
  simp only [splitRgba, r, g, b]

/-! ### Agreement -/

/-- The brightness of colours as a conversion of pixels. -/
def toGray : Conversion PixelFormat.rgba8.kind PixelFormat.grayFloat.kind :=
  .luma 8 (.binary .single)

/-- The brightness that is computed from the planes of an image. -/
def planarGray (img : Image (Pixel .rgba8)) : Except Error (Image (Pixel .grayFloat)) :=
  grayscale (NumberKind.natural 8).toDouble img.splitRgba.1 img.splitRgba.2.1 img.splitRgba.2.2.1

theorem planarGray_isConversionOf (img : Image (Pixel .rgba8)) (wf : img.WellFormed) :
    ∃ gray, img.planarGray = .ok gray ∧ gray.WellFormed ∧
      IsConversionOf (.done gray) toGray img.size fun x y => img.get (.cell x y) := by
  obtain ⟨gray, made, grayWf, size, items⟩ :=
    grayscale_splitRgba (NumberKind.natural 8).toDouble img wf
  refine ⟨gray, made, grayWf, rfl, size, fun x y column row => ?_⟩
  obtain ⟨p, here⟩ := img.asView.exists_get wf.asView x y column row
  rw [img.get_asView wf x y column row] at here
  exact ⟨p, here, (img.get_map_eq_ok_iff gray toGray.apply size items _ _).mpr ⟨p, here, rfl⟩⟩

/-- The image is what the planes, the pixels and the tree are converted to, and each of its pixels is
the brightness of a colour. -/
structure IsGrayOf (gray : Image (Pixel .grayFloat)) (img : Image (Pixel .rgba8)) : Prop where
  converted : IsConversionOf (.done gray) toGray img.size fun x y => img.get (.cell x y)
  planar : img.planarGray = .ok gray
  packed : (ofConverted toGray img.asView).failure = none
  packed_same : (ofConverted toGray img.asView).state.SameVisible gray
  tree : (ofExpr (.cast toGray (.leaf img.asView))).failure = none
  tree_same : (ofExpr (.cast toGray (.leaf img.asView)) :
    Outcome (Image (Pixel .grayFloat))).state.SameVisible gray

theorem exists_isGrayOf (img : Image (Pixel .rgba8)) (wf : img.WellFormed) :
    ∃ gray : Image (Pixel .grayFloat), gray.IsGrayOf img := by
  obtain ⟨gray, planar, grayWf, converted⟩ := img.planarGray_isConversionOf wf
  have agree := ((blank : Image (Pixel .grayFloat)).conversionsAgree_of_wellFormed wellFormed_blank
    toGray img.asView wf.asView).congr fun x y => img.get_asView wf x y
  refine ⟨gray, converted, planar, agree.created.failure_eq, ?_, agree.evaluated.failure_eq, ?_⟩
  · have createdWf := wellFormed_assignConverted wellFormed_blank toGray img.asView
    exact agree.created.sameVisible converted createdWf grayWf
  · exact agree.evaluated.sameVisible converted (wellFormed_assign wellFormed_blank _) grayWf

/-- All ways to the brightness of colours lead to the same image, and opacity has no part in it.
Planes of other shapes are refused, also if they have as many pixels. -/
theorem grayscale_ways_agree :
    (∀ img : Image (Pixel .rgba8), img.Reachable →
      ∃ gray : Image (Pixel .grayFloat), gray.IsGrayOf img) ∧
    (∀ img other : Image (Pixel .rgba8), img.Reachable → other.Reachable → img.SameColours other →
      ∃ gray : Image (Pixel .grayFloat), gray.IsGrayOf img ∧ gray.IsGrayOf other) ∧
    ∀ {α : Type} (toDouble : α → Double) (r g b : Image α), RefusesShapes toDouble r g b := by
  refine ⟨fun img made => img.exists_isGrayOf made.wellFormed, ?_, refusesShapes⟩
  intro img other made otherMade same
  obtain ⟨gray, grayOf⟩ := img.exists_isGrayOf made.wellFormed
  obtain ⟨gray', grayOf'⟩ := other.exists_isGrayOf otherMade.wellFormed
  -- The planes that are read are the same for both images, so the two results are one.
  have planar : img.planarGray = other.planarGray :=
    same.grayscale_eq made.wellFormed otherMade.wellFormed _
  rw [grayOf.planar, grayOf'.planar, Except.ok.injEq] at planar
  subst planar
  exact ⟨gray, grayOf, grayOf'⟩

/-- The image with one opacity everywhere. -/
def withOpacity {bits : Nat} (img : Image (Rgba bits)) (a : Level bits) : Image (Rgba bits) :=
  img.apply fun _ c => { c with a }

theorem sameColours_withOpacity {bits : Nat} (img : Image (Rgba bits)) (a : Level bits) :
    img.SameColours (img.withOpacity a) := by
  refine ⟨rfl, fun position p q here there => ?_⟩
  obtain ⟨c, hereToo, rfl⟩ := (img.get_map_eq_ok_iff (img.withOpacity a) (fun c => { c with a }) rfl
    (img.toList_apply_each _) position q).mp there
  obtain rfl := Except.ok.inj (here.symm.trans hereToo)
  exact ⟨rfl, rfl, rfl⟩

/-- Red, green and gray with an opacity each. -/
def swatch : Image (Pixel .rgba8) :=
  ⟨3, 1, .ofArray ([(255, 0, 0, 255), (10, 200, 30, 0), (7, 7, 7, 7)].map
    fun (r, g, b, a) => (⟨.ofNat r, .ofNat g, .ofNat b, .ofNat a⟩ : Rgba 8)).toArray⟩

/-- The same colours with another opacity, and planes with six pixels each in three shapes. -/
theorem grayscale_ways_agree_swatch :
    swatch.Reachable ∧
      (∃ gray : Image (Pixel .grayFloat), gray.IsGrayOf swatch ∧
        gray.IsGrayOf (swatch.withOpacity (.ofNat 9))) ∧
      grayscale Binary.toDouble (zeroed 3 2 : Image Single) (zeroed 2 3) (zeroed 6 1) =
        .error (.geometryMismatch ⟨3, 2⟩ ⟨2, 3⟩) ∧
      grayscale Binary.toDouble (zeroed 3 2 : Image Single) (zeroed 3 2) (zeroed 6 1) =
        .error (.geometryMismatch ⟨3, 2⟩ ⟨6, 1⟩) := by
  have made : swatch.Reachable := reachable_ofArray 3 1 _ rfl
  have fadedMade := (reachable_iff_wellFormed _).mpr
    (wellFormed_apply made.wellFormed fun _ (c : Rgba 8) => { c with a := .ofNat 9 })
  obtain ⟨-, opacity, refuses⟩ := grayscale_ways_agree
  refine ⟨made, opacity swatch _ made fadedMade (sameColours_withOpacity swatch _), ?_, ?_⟩
  · exact (refuses _ (zeroed 3 2) (zeroed 2 3) (zeroed 6 1)).second_first (by decide)
  · exact (refuses _ (zeroed 3 2) (zeroed 3 2) (zeroed 6 1)).then_third rfl (by decide)

end Raster.Image
