import Raster.Proofs.Agreement
import Raster.Proofs.Storage.Shape

/-!
# Storages that cannot be told apart

Storages of one kind with the same items may differ in their hidden slots. Whatever is done to both
leaves storages that cannot be told apart either, with one exception: a change of length that gives
no fill shows slots that were hidden if it makes an inline storage longer and keeps it inline.
-/

namespace Raster.Storage

variable {α : Type} {capacity : Nat}

structure Alike (s t : Storage α capacity) : Prop where
  kind_eq : s.kind = t.kind
  toList_eq : s.toList = t.toList

/-! ### Change of length -/

/-- The change of kind is told, and nothing else is. -/
theorem told_setLength [Inhabited α] (s : Storage α capacity) (length : Nat) (fill : Option α) :
    (s.setLength length fill).2 =
      if s.kind = (if length ≤ capacity then .inline else .heap) then none
      else some ⟨s.length, length, s.kind, if length ≤ capacity then .inline else .heap⟩ := by
  unfold setLength
  by_cases inside : length ≤ capacity
  · cases s with
    | inline slots n h => cases fill <;> simp [inside, kind]
    | heap items => simp [inside, kind]
  · cases s with
    | inline slots n h => simp [inside, kind]
    | heap items => cases fill <;> simp [inside, kind]

/-- Without a fill, a storage that keeps its kind keeps its first items, unless it shows more of its
slots than before. A change of kind starts from default values. -/
theorem toList_setLength_none [Inhabited α] (s : Storage α capacity) (length : Nat)
    (hidden : s.kind = .inline → length ≤ capacity → length ≤ s.length) :
    (s.setLength length none).1.toList =
      if s.kind = (if length ≤ capacity then .inline else .heap) then
        s.toList.take length ++ List.replicate (length - s.length) default
      else List.replicate length default := by
  unfold setLength
  by_cases inside : length ≤ capacity
  · cases s with
    | inline slots n h =>
      have fewer : length ≤ n := hidden rfl inside
      have none_added : length - n = 0 := Nat.sub_eq_zero_of_le fewer
      simp only [inside, kind, dite_true, if_true, toList_inline, Storage.length, none_added,
        List.replicate_zero, List.append_nil, List.take_take, Nat.min_eq_left fewer]
    | heap items => simp [inside, kind, toList_filled]
  · cases s with
    | inline slots n h => simp [inside, kind, toList_filled]
    | heap items => simp [inside, kind, toList_heap, resized, Storage.length]

namespace Alike

variable {s t : Storage α capacity}

theorem length_eq (alike : s.Alike t) : s.length = t.length := by
  rw [← s.length_toList, alike.toList_eq, t.length_toList]

theorem told_eq [Inhabited α] (alike : s.Alike t) (length : Nat) (fill : Option α) :
    (s.setLength length fill).2 = (t.setLength length fill).2 := by
  rw [told_setLength, told_setLength, alike.kind_eq, alike.length_eq]

theorem setLength [Inhabited α] (alike : s.Alike t) (length : Nat) (fill : Option α)
    (hidden : fill = none → s.kind = .inline → length ≤ capacity → length ≤ s.length) :
    (s.setLength length fill).1.Alike (t.setLength length fill).1 where
  kind_eq := by rw [(fits_setLength s length fill).kind_eq, (fits_setLength t length fill).kind_eq]
  toList_eq := by
    cases fill with
    | some value => rw [toList_setLength_some, toList_setLength_some]
    | none =>
      have hiddenToo := hidden rfl
      rw [alike.kind_eq, alike.length_eq] at hiddenToo
      rw [toList_setLength_none s length (hidden rfl), toList_setLength_none t length hiddenToo,
        alike.kind_eq, alike.length_eq, alike.toList_eq]

/-! ### Writing -/

theorem put (alike : s.Alike t) (i : Nat) (value : α) : (s.put i value).Alike (t.put i value) where
  kind_eq := by rw [kind_put, kind_put, alike.kind_eq]
  toList_eq := by rw [toList_put, toList_put, alike.toList_eq]

theorem set (alike : s.Alike t) (i : Nat) (value : α) :
    Agree Alike (s.set i value) (t.set i value) := by
  unfold Storage.set
  rw [alike.length_eq]
  split
  · exact .ok (alike.put i value)
  · exact .error _

theorem modify (alike : s.Alike t) (rule : Nat → α → α) : (s.modify rule).Alike (t.modify rule) where
  kind_eq := by rw [kind_modify, kind_modify, alike.kind_eq]
  toList_eq := by rw [toList_modify, toList_modify, alike.toList_eq]

private theorem writeEachOf (rule : Storage α capacity → Nat → Except Fault α)
    (reads : ∀ u v : Storage α capacity, u.Alike v → ∀ i, rule u i = rule v i)
    (indices : List Nat) (s t : Storage α capacity) (alike : s.Alike t) :
    (writeEachOf rule indices s).1.Alike (writeEachOf rule indices t).1 ∧
      (writeEachOf rule indices s).2 = (writeEachOf rule indices t).2 := by
  induction indices generalizing s t with
  | nil => exact ⟨alike, rfl⟩
  | cons i rest ih =>
    unfold Storage.writeEachOf
    rw [reads s t alike i]
    cases rule t i with
    | error fault => exact ⟨alike, rfl⟩
    | ok value => exact ih _ _ (alike.put i value)

/-- A rule that reads items only writes the same to both, and faults alike. -/
theorem writeEach (alike : s.Alike t) (rule : Storage α capacity → Nat → Except Fault α)
    (reads : ∀ u v : Storage α capacity, u.Alike v → ∀ i, rule u i = rule v i) :
    (s.writeEach rule).1.Alike (t.writeEach rule).1 ∧
      (s.writeEach rule).2 = (t.writeEach rule).2 := by
  unfold Storage.writeEach
  rw [alike.length_eq]
  exact writeEachOf rule reads _ s t alike

end Alike

end Raster.Storage
