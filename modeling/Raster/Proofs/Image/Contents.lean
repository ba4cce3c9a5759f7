import Raster.Proofs.Image.WellFormed
import Raster.Proofs.Storage.Loop

/-!
# What images hold

The visible pixels of an image are a list, which reads take items of and writes make items of.
-/

namespace Raster.Image

variable {α : Type}

theorem WellFormed.length_toList {img : Image α} (wf : img.WellFormed) :
    img.data.toList.length = img.size.area :=
  img.data.length_toList.trans wf.length_data

/-- The images cannot be told apart by their size, their pixels or their kind of storage. Slots
that are hidden behind the pixels do not count. -/
structure SameVisible (a b : Image α) : Prop where
  size_eq : a.size = b.size
  isInline_eq : a.isInline = b.isInline
  toList_eq : a.data.toList = b.data.toList

theorem WellFormed.sameVisible {a b : Image α} (wfA : a.WellFormed) (wfB : b.WellFormed)
    (size : a.size = b.size)
    (pixels : ∀ i < b.size.area, a.data.toList[i]? = b.data.toList[i]?) : a.SameVisible b where
  size_eq := size
  isInline_eq := by
    have inlineA := wfA.isInline_iff
    rw [size] at inlineA
    exact Bool.eq_iff_iff.mpr (inlineA.trans wfB.isInline_iff.symm)
  toList_eq := by
    have lengthA := wfA.length_toList
    rw [size] at lengthA
    apply List.ext_getElem?
    intro i
    by_cases inside : i < b.size.area
    · exact pixels i inside
    · have outside : b.size.area ≤ i := Nat.le_of_not_lt inside
      rw [List.getElem?_eq_none (lengthA ▸ outside),
        List.getElem?_eq_none (wfB.length_toList ▸ outside)]

/-! ### Reading -/

theorem get_cell (img : Image α) (x y : UInt32) (column : x < img.width) (row : y < img.height) :
    img.get (.cell x y) = img.data.read (y.toNat * img.width.toNat + x.toNat) := by
  have index : img.indexOf (.cell x y) = .ok (y.toNat * img.width.toNat + x.toNat) :=
    if_pos ⟨column, row⟩
  unfold get
  rw [index]
  rfl

theorem get_cell_eq_ok_iff (img : Image α) (x y : UInt32) (v : α) (column : x < img.width)
    (row : y < img.height) :
    img.get (.cell x y) = .ok v ↔
      img.data.toList[y.toNat * img.width.toNat + x.toNat]? = some v := by
  rw [img.get_cell x y column row, Slice.read_eq_ok_iff, Slice.get?_eq_toList]

theorem get_cell_of_item (img : Image α) (size : Size) (same : img.size = size) (x y : UInt32)
    (v : α) (column : x < size.width) (row : y < size.height)
    (item : img.data.toList[y.toNat * size.width.toNat + x.toNat]? = some v) :
    img.get (.cell x y) = .ok v := by
  subst same
  exact (img.get_cell_eq_ok_iff x y v column row).mpr item

theorem get_linear_eq_ok_iff (img : Image α) (i : Nat) (v : α) :
    img.get (.linear i) = .ok v ↔ img.data.toList[i]? = some v := by
  rw [← Slice.get?_eq_toList, ← Slice.read_eq_ok_iff]
  rfl

/-- A position is an index or finds one, and yields the item there. -/
theorem get_eq_ok_iff (img : Image α) (position : Position) (v : α) :
    img.get position = .ok v ↔
      ∃ i, img.indexOf position = .ok i ∧ img.data.toList[i]? = some v := by
  simp only [get, bind_eq_ok_iff, Slice.read_eq_ok_iff, Slice.get?_eq_toList]

/-- An image of one size whose items are made of this image's shows them so at each position. -/
theorem get_map_eq_ok_iff {β : Type} (img : Image α) (other : Image β) (rule : α → β)
    (size : other.size = img.size) (items : other.data.toList = img.data.toList.map rule)
    (position : Position) (v : β) :
    other.get position = .ok v ↔ ∃ p, img.get position = .ok p ∧ rule p = v := by
  have index : other.indexOf position = img.indexOf position := by
    cases position with
    | linear i => rfl
    | cell x y =>
      obtain ⟨width, height⟩ := (Size.mk.injEq ..).mp size
      rw [indexOf, indexOf, width, height]
  simp only [get_eq_ok_iff, index, items, List.getElem?_map, Option.map_eq_some_iff]
  constructor
  · rintro ⟨i, found, p, here, rfl⟩
    exact ⟨p, ⟨i, found, here⟩, rfl⟩
  · rintro ⟨p, ⟨i, found, here⟩, rfl⟩
    exact ⟨i, found, p, here, rfl⟩

/-! ### Writing -/

/-- A write by an index of the image puts the value to that item. -/
theorem set_linear_eq_ok (img : Image α) (wf : img.WellFormed) (i : Nat)
    (inside : i < img.size.area) (v : α) :
    img.set (.linear i) v = .ok { img with storage := img.storage.put i v } := by
  have stored : i < img.storage.length := by
    rwa [← img.length_data_eq, wf.length_data]
  simp only [set, indexOf, bind_eq_ok_iff, pure_eq_ok_iff]
  exact ⟨i, rfl, _, (img.storage.set_eq_ok_iff _ i v).mpr ⟨stored, rfl⟩, rfl⟩

theorem toList_apply (img : Image α) (rule : Nat → α → α) :
    (img.apply rule).data.toList = img.data.toList.mapIdx rule :=
  Storage.toList_modify img.storage rule

theorem toList_apply_each (img : Image α) (rule : α → α) :
    (img.apply fun _ old => rule old).data.toList = img.data.toList.map rule := by
  rw [toList_apply]
  exact List.ext_getElem (by simp) (by simp)

/-- As many values as pixels replace all of them. -/
theorem toList_overwrite (img : Image α) (values : Array α)
    (enough : values.size = img.data.length) :
    (img.overwrite values).data.toList = values.toList := by
  unfold overwrite
  rw [toList_apply]
  apply List.ext_getElem
  · rw [List.length_mapIdx, Slice.length_toList, Array.length_toList, enough]
  · intro i _ inside
    have below : i < values.size := by simpa using inside
    simp [below]

theorem getElem?_overwrite_map {β : Type} (img : Image α) (values : Array β) (rule : β → α)
    (enough : values.size = img.data.length) (i : Nat) (v : β) (found : values[i]? = some v) :
    (img.overwrite (values.map rule)).data.toList[i]? = some (rule v) := by
  rw [img.toList_overwrite _ (Array.size_map.trans enough), Array.getElem?_toList,
    Array.getElem?_map, found]
  rfl

/-- Rules that agree on each pixel as long as it is unwritten leave the same image, and fault
alike. -/
theorem writeEach_congr (img : Image α) (rule other : Slice α → Nat → Except Fault α)
    (agree : ∀ pixels i, i < img.data.length → pixels.get? i = img.data.get? i →
      rule pixels i = other pixels i) :
    img.writeEach rule = img.writeEach other := by
  unfold writeEach
  rw [img.storage.writeEach_congr _ fun s i => other s.items i]
  intro s i inside unwritten
  apply agree s.items i
  · rwa [length_data_eq]
  · rw [s.get?_items, unwritten]
    exact (img.storage.get?_items i).symm

theorem writeEach_total (img : Image α) (rule : Nat → Except Fault α)
    (total : ∀ i < img.data.length, ∃ v, rule i = .ok v) :
    (img.writeEach fun _ i => rule i).2 = none ∧
      ∀ i < img.data.length, ∃ v, rule i = .ok v ∧
        (img.writeEach fun _ i => rule i).1.data.toList[i]? = some v := by
  rw [length_data_eq] at *
  exact Storage.writeEach_total img.storage rule total

end Raster.Image
