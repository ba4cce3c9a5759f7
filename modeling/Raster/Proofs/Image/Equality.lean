import Raster.Proofs.Image.Visible
import Raster.Proofs.Pixel.Words

/-!
# Equality is bytewise

Two images are equal if they have the same size and their pixels, laid out as bytes one after
another, are the same bytes. This is the same as equal bytes pixel by pixel, since all pixels of a
format have equally many. The values of the pixels as numbers do not matter, nor does anything that
is not visible.
-/

namespace Raster.Image

variable {f : PixelFormat}

/-- The bytes of all pixels, as they lie in memory. -/
def bytes (img : Image (Pixel f)) : List UInt8 :=
  img.data.toList.flatMap Pixel.bytes

/-- The bytes of an image tell its pixels, and so how many there are. -/
theorem bytes_eq_iff (a b : Image (Pixel f)) :
    a.bytes = b.bytes ↔ a.data.toList = b.data.toList := by
  constructor
  · intro same
    have pixelBytes : 0 < f.channelCount * f.channelBytes := by
      cases f <;> decide
    have lengths (img : Image (Pixel f)) : img.bytes.length =
        img.data.toList.length * (f.channelCount * f.channelBytes) :=
      length_flatMap_of_length Pixel.bytes _ Pixel.length_bytes _
    -- No pixel is without bytes, so the count of bytes tells the count of pixels.
    have count : a.data.toList.length = b.data.toList.length := by
      apply Nat.eq_of_mul_eq_mul_right pixelBytes
      rw [← lengths a, ← lengths b, same]
    exact flatMap_injective_of_length Pixel.bytes _ Pixel.length_bytes _ _ count
      (fun _ _ _ _ => Pixel.bytes_injective) same
  · intro same
    rw [bytes, same, bytes]

theorem beq_iff_bytes (a b : Image (Pixel f)) :
    (a == b) = true ↔ a.width = b.width ∧ a.height = b.height ∧ a.bytes = b.bytes := by
  rw [beq_iff, bytes_eq_iff]
  simp only [size, Size.mk.injEq, and_assoc]

theorem beq_eq_false_of_size_ne (a b : Image (Pixel f)) (different : a.size ≠ b.size) :
    (a == b) = false := by
  rw [← Bool.not_eq_true, beq_iff]
  exact fun same => different same.1

/-- Equality looks at sizes and pixels only. -/
theorem beq_congr (a a' b b' : Image (Pixel f)) (sizeA : a.size = a'.size)
    (pixelsA : a.data.toList = a'.data.toList) (sizeB : b.size = b'.size)
    (pixelsB : b.data.toList = b'.data.toList) : (a == b) = (a' == b') := by
  rw [Bool.eq_iff_iff, beq_iff, beq_iff, sizeA, pixelsA, sizeB, pixelsB]

theorem beq_equivalence : Equivalence fun a b : Image (Pixel f) => (a == b) = true where
  refl img := (beq_iff img img).mpr ⟨rfl, rfl⟩
  symm := by
    intro a b same
    obtain ⟨size, pixels⟩ := (beq_iff a b).mp same
    exact (beq_iff b a).mpr ⟨size.symm, pixels.symm⟩
  trans := by
    intro a b c first second
    obtain ⟨size, pixels⟩ := (beq_iff a b).mp first
    obtain ⟨size', pixels'⟩ := (beq_iff b c).mp second
    exact (beq_iff a c).mpr ⟨size.trans size', pixels.trans pixels'⟩

/-! ### Pixel by pixel -/

theorem exists_get_linear (img : Image (Pixel f)) (wf : img.WellFormed) (i : Nat)
    (inside : i < img.size.area) : ∃ p, img.get (.linear i) = .ok p := by
  have listed : i < img.data.toList.length := wf.length_toList ▸ inside
  exact ⟨_, (img.get_linear_eq_ok_iff i _).mpr (List.getElem?_eq_getElem listed)⟩

theorem beq_iff_forall_bytes (a b : Image (Pixel f)) (wfA : a.WellFormed) (wfB : b.WellFormed) :
    (a == b) = true ↔ a.width = b.width ∧ a.height = b.height ∧ ∀ i < a.size.area,
      ∃ p q, a.get (.linear i) = .ok p ∧ b.get (.linear i) = .ok q ∧ p.bytes = q.bytes := by
  constructor
  · intro equal
    obtain ⟨size, pixels⟩ := (beq_iff a b).mp equal
    refine ⟨congrArg Size.width size, congrArg Size.height size, fun i inside => ?_⟩
    obtain ⟨p, here⟩ := a.exists_get_linear wfA i inside
    have there := (a.get_linear_eq_ok_iff i p).mp here
    exact ⟨p, p, here, (b.get_linear_eq_ok_iff i p).mpr (pixels ▸ there), rfl⟩
  · rintro ⟨width, height, pixels⟩
    have size : a.size = b.size := by rw [size, size, width, height]
    apply (sameVisible_iff_beq wfA wfB).mpr
    apply wfA.sameVisible wfB size
    intro i inside
    obtain ⟨p, q, here, there, same⟩ := pixels i (size ▸ inside)
    rw [(a.get_linear_eq_ok_iff i p).mp here, (b.get_linear_eq_ok_iff i q).mp there,
      Pixel.bytes_injective same]

/-! ### Changes of one pixel -/

/-- A copy with one pixel written is equal to the image exactly if that pixel has the bytes it had. -/
theorem beq_set_eq_false_iff (img : Image (Pixel f)) (wf : img.WellFormed) (i : Nat)
    (inside : i < img.size.area) (p : Pixel f) :
    ∃ old new, img.get (.linear i) = .ok old ∧ img.set (.linear i) p = .ok new ∧
      ((new == img) = false ↔ p.bytes ≠ old.bytes) := by
  obtain ⟨old, here⟩ := img.exists_get_linear wf i inside
  have listed := (img.get_linear_eq_ok_iff i old).mp here
  refine ⟨old, _, here, img.set_linear_eq_ok wf i inside p, ?_⟩
  have items : img.storage.toList[i]? = some old := listed
  -- The size stays in any case, so only the items can tell the two apart.
  have stays : (img.storage.put i p).toList = img.storage.toList ↔ p.bytes = old.bytes := by
    rw [Storage.toList_put]
    constructor
    · intro same
      have shown := congrArg (·[i]?) same
      simp only [List.getElem?_set_self (List.getElem?_eq_some_iff.mp items).1, items] at shown
      rw [Option.some.inj shown]
    · intro sameBytes
      obtain ⟨below, held⟩ := List.getElem?_eq_some_iff.mp items
      rw [Pixel.bytes_injective sameBytes, ← held, List.set_getElem_self]
  rw [← Bool.not_eq_true, beq_iff]
  exact not_congr ((and_iff_right rfl).trans stays)

theorem filled_beq_eq_false (width height : UInt32) (pixels : 0 < Size.area ⟨width, height⟩)
    (p q : Pixel f) (different : p ≠ q) : (filled width height p == filled width height q) = false := by
  rw [← Bool.not_eq_true, beq_iff]
  rintro ⟨-, same⟩
  have items (v : Pixel f) :
      (filled width height v).data.toList = List.replicate (Size.area ⟨width, height⟩) v :=
    Storage.toList_filled _ v
  rw [items, items, List.replicate_inj] at same
  rcases same.2 with empty | equal
  · omega
  · exact different equal

/-- The zero of either sign. -/
def signedZero (negative : Bool) : Pixel .grayFloat :=
  (Binary.ofMagnitude negative 0 : Single)

/-- Equality of images is equality of their sizes and bytes. For images that can be reached this is
equality of the bytes at every index. So it is an equivalence, whatever the pixels are as numbers,
and it tells images apart that differ in nothing but the order of an empty size, or in any channel of
one pixel. It does not look at anything but size and visible pixels. Images of the two zeros of the
gray floats differ, though the zeros are equal as numbers. -/
theorem beq_is_bytewise :
    (∀ f : PixelFormat,
      (∀ a b : Image (Pixel f),
        (a == b) = true ↔ a.width = b.width ∧ a.height = b.height ∧ a.bytes = b.bytes) ∧
      (∀ a b : Image (Pixel f), a.Reachable → b.Reachable →
        ((a == b) = true ↔ a.width = b.width ∧ a.height = b.height ∧ ∀ i < a.size.area,
          ∃ p q, a.get (.linear i) = .ok p ∧ b.get (.linear i) = .ok q ∧ p.bytes = q.bytes)) ∧
      (Equivalence fun a b : Image (Pixel f) => (a == b) = true) ∧
      (∀ a b : Image (Pixel f), ∀ n > 0, a.size = ⟨0, n⟩ → b.size = ⟨n, 0⟩ → (a == b) = false) ∧
      (∀ a a' b b' : Image (Pixel f), a.size = a'.size → a.data.toList = a'.data.toList →
        b.size = b'.size → b.data.toList = b'.data.toList → (a == b) = (a' == b')) ∧
      ∀ img : Image (Pixel f), img.Reachable → ∀ i < img.size.area, ∀ p, ∃ old new,
        img.get (.linear i) = .ok old ∧ img.set (.linear i) p = .ok new ∧
          ((new == img) = false ↔ p.bytes ≠ old.bytes) ∧
          (p.bytes ≠ old.bytes ↔ ∃ c, p.channel c ≠ old.channel c)) ∧
    ∀ width height, 0 < Size.area ⟨width, height⟩ →
      (filled width height (signedZero false) == filled width height (signedZero true)) = false := by
  refine ⟨fun f => ⟨beq_iff_bytes, fun a b reachA reachB => ?_, beq_equivalence,
    fun a b n positive sizeA sizeB => ?_, beq_congr, fun img reachable i inside p => ?_⟩,
    fun width height pixels => ?_⟩
  · exact beq_iff_forall_bytes a b reachA.wellFormed reachB.wellFormed
  · apply beq_eq_false_of_size_ne
    rw [sizeA, sizeB]
    intro same
    have zero : (0 : UInt32) = n := congrArg Size.width same
    exact absurd positive (zero ▸ by decide)
  · obtain ⟨old, new, here, written, changed⟩ :=
      img.beq_set_eq_false_iff reachable.wellFormed i inside p
    exact ⟨old, new, here, written, changed, p.bytes_ne_iff old⟩
  · apply filled_beq_eq_false width height pixels
    intro same
    exact Bool.false_ne_true (congrArg (fun x : Single => x.negative) same)

/-- A value that is not a number is in no order with itself, and an image of it is equal to itself.
The two zeros are in order equal, and images of them are not. An image that was larger before holds
other pixels in its hidden slots, and equals one that never was. One step in one pixel makes a copy
unequal. -/
theorem beq_is_bytewise_histories :
    let nan : Pixel .grayFloat := (Binary.invalid : Single)
    let seven : Pixel .gray8 := (Level.ofNat 7 : Level 8)
    let four : Pixel .gray8 := (Level.ofNat 4 : Level 8)
    (nan.compare? nan = none ∧ (filled 2 2 nan == filled 2 2 nan) = true) ∧
      ((signedZero false).compare? (signedZero true) = some .eq ∧
        (filled 3 3 (signedZero false) == filled 3 3 (signedZero true)) = false) ∧
      (filled 0 5 seven == filled 5 0 seven) = false ∧
      (((filled 3 2 seven).resize ⟨2, 2⟩ (some four)).1 == filled 2 2 four) = true ∧
      ramp.Reachable ∧ ∃ new, ramp.set (.linear 10) (Level.ofNat 11 : Level 8) = .ok new ∧
        (new == ramp) = false := by
  intro nan seven four
  obtain ⟨formats, zeros⟩ := beq_is_bytewise
  obtain ⟨-, -, equivalence, -, -, -⟩ := formats .grayFloat
  obtain ⟨-, -, same, empty, shown, change⟩ := formats .gray8
  refine ⟨⟨by decide, equivalence.refl _⟩, ⟨by decide, zeros 3 3 (by decide)⟩,
    empty _ _ 5 (by decide) rfl rfl, ?_, ramp_reachable, ?_⟩
  · have layered := SameVisible.resize_some (wellFormed_filled 3 2 seven) ⟨2, 2⟩ four (by decide)
    exact (shown _ _ _ _ layered.size_eq.symm layered.toList_eq.symm rfl rfl).trans (same.refl _)
  · obtain ⟨old, new, here, written, changed, -⟩ :=
      change ramp ramp_reachable 10 (by decide) (Level.ofNat 11 : Level 8)
    refine ⟨new, written, changed.mpr fun sameBytes => ?_⟩
    have ten : old = (Level.ofNat 10 : Level 8) := by
      have listed := (ramp.get_linear_eq_ok_iff 10 old).mp here
      rw [getElem?_ramp 10 (by decide)] at listed
      exact (Option.some.inj listed).symm
    have equal := Pixel.bytes_injective sameBytes
    rw [ten] at equal
    exact absurd (congrArg (fun x : Level 8 => x.toNat) equal) (by decide)

end Raster.Image
