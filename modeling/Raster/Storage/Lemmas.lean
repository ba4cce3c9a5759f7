import Raster.Storage

/-!
# Storages as lists

Each operation on a storage is an operation on the list of its items, which is the same for every
capacity.
-/

namespace Raster.Storage

variable {α : Type} {capacity : Nat}

theorem toList_inline (slots : Vector α capacity) (n : Nat) (h : n ≤ capacity) :
    (inline slots n h).toList = slots.toList.take n := by
  simp [toList, items, Slice.toList, Slice.toArray, List.extract_eq_take_drop, Vector.toList]

theorem toList_heap (items : Array α) : (heap items : Storage α capacity).toList = items.toList := by
  simp [toList, Storage.items, Slice.toList, Slice.toArray]

theorem length_toList (s : Storage α capacity) : s.toList.length = s.length := by
  cases s with
  | inline slots n h => simp [toList_inline, length, h]
  | heap items => simp [toList_heap, length]

/-! ### Construction -/

theorem toList_filled (length : Nat) (value : α) :
    (filled length value : Storage α capacity).toList = List.replicate length value := by
  unfold filled
  split
  next h => simp [toList_inline, Nat.min_eq_left h]
  next => simp [toList_heap]

theorem toList_blank [Inhabited α] : (blank : Storage α capacity).toList = [] := by
  simp [blank, toList_inline]

theorem toList_ofArray [Inhabited α] (items : Array α) :
    (ofArray items : Storage α capacity).toList = items.toList := by
  unfold ofArray
  split
  next => simp [toList_inline]
  next => simp [toList_heap]

/-! ### Change of length -/

theorem length_setLength [Inhabited α] (s : Storage α capacity) (length : Nat) (fill : Option α) :
    (s.setLength length fill).1.length = length := by
  have filled_length (value : α) : (filled length value : Storage α capacity).length = length := by
    rw [← length_toList, toList_filled, List.length_replicate]
  unfold setLength
  cases s with
  | inline slots n h =>
    dsimp only
    split
    · cases fill <;> rfl
    · exact filled_length _
  | heap items =>
    dsimp only
    split
    · exact filled_length _
    next beyond =>
      cases fill with
      | some v => simp [Storage.length]
      | none => simp [Storage.length, resized]; omega

theorem toList_setLength_some [Inhabited α] (s : Storage α capacity) (length : Nat) (value : α) :
    (s.setLength length (some value)).1.toList = List.replicate length value := by
  unfold setLength
  cases s with
  | inline slots n h =>
    dsimp only
    split
    next fits =>
      rw [toList_inline]
      apply List.ext_getElem
      · simp [fits]
      · intro i inside _
        have below : i < length := by simp at inside; omega
        simp [below]
    next => exact toList_filled ..
  | heap items =>
    dsimp only
    split
    · exact toList_filled ..
    · simp [toList_heap]

/-! ### Writing -/

theorem toList_put (s : Storage α capacity) (i : Nat) (value : α) :
    (s.put i value).toList = s.toList.set i value := by
  unfold put
  cases s with
  | inline slots n h =>
    dsimp only
    split
    next => rw [toList_inline, toList_inline, Vector.toList_set, List.take_set]
    next beyond =>
      rw [toList_inline, List.set_eq_of_length_le]
      simp
      omega
  | heap items => simp [toList_heap]

theorem length_put (s : Storage α capacity) (i : Nat) (value : α) :
    (s.put i value).length = s.length := by
  rw [← length_toList, toList_put, List.length_set, length_toList]

theorem kind_put (s : Storage α capacity) (i : Nat) (value : α) : (s.put i value).kind = s.kind := by
  unfold put
  cases s with
  | inline slots n h => dsimp only; split <;> rfl
  | heap items => rfl

theorem toList_modify (s : Storage α capacity) (rule : Nat → α → α) :
    (s.modify rule).toList = s.toList.mapIdx rule := by
  unfold modify
  cases s with
  | inline slots n h =>
    dsimp only
    rw [toList_inline, toList_inline]
    apply List.ext_getElem
    · simp
    · intro i inside _
      have below : i < n := by simp at inside; omega
      simp [below]
  | heap items => simp [toList_heap]

end Raster.Storage
