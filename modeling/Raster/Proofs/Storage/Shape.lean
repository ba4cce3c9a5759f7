import Raster.Storage.Lemmas

/-!
# Length and kind of a storage

A change of length selects the kind that the new length calls for, whatever the storage was before.
Writing changes neither the length nor the kind.
-/

namespace Raster.Storage

variable {α : Type} {capacity : Nat}

/-- The storage has this many items, and they lie inline exactly if they fit into the slots. -/
structure Fits (s : Storage α capacity) (length : Nat) : Prop where
  length_eq : s.length = length
  kind_eq : s.kind = if length ≤ capacity then .inline else .heap

theorem isInline_iff (s : Storage α capacity) : s.isInline = true ↔ s.kind = .inline := by
  cases s <;> simp [isInline, kind]

theorem isInline_eq_iff (s t : Storage α capacity) : s.isInline = t.isInline ↔ s.kind = t.kind := by
  rw [Bool.eq_iff_iff, isInline_iff, isInline_iff]
  cases s.kind <;> cases t.kind <;> simp

theorem Fits.isInline_iff {s : Storage α capacity} {length : Nat} (fits : s.Fits length) :
    s.isInline = true ↔ length ≤ capacity := by
  rw [s.isInline_iff, fits.kind_eq]
  split <;> simp_all

/-- A storage of the same length and kind fits as well. -/
theorem Fits.of_eq {s t : Storage α capacity} {length : Nat} (fits : s.Fits length)
    (sameLength : t.length = s.length) (sameKind : t.kind = s.kind) : t.Fits length :=
  ⟨sameLength.trans fits.length_eq, sameKind.trans fits.kind_eq⟩

/-! ### Construction -/

theorem fits_filled (length : Nat) (value : α) :
    (filled length value : Storage α capacity).Fits length := by
  unfold filled
  split
  next inside => exact ⟨rfl, by simp [kind, inside]⟩
  next outside => exact ⟨by simp [Storage.length], by simp [kind, outside]⟩

theorem fits_blank [Inhabited α] : (blank : Storage α capacity).Fits 0 :=
  ⟨rfl, by simp [blank, kind]⟩

theorem fits_ofArray [Inhabited α] (items : Array α) :
    (ofArray items : Storage α capacity).Fits items.size := by
  unfold ofArray
  split
  next inside => exact ⟨rfl, by simp [kind, inside]⟩
  next outside => exact ⟨rfl, by simp [kind, outside]⟩

/-! ### Change of length -/

/-- Each of the four ways to change the length selects the kind anew. -/
theorem fits_setLength [Inhabited α] (s : Storage α capacity) (length : Nat) (fill : Option α) :
    (s.setLength length fill).1.Fits length := by
  refine ⟨length_setLength s length fill, ?_⟩
  unfold setLength
  cases s with
  | inline slots n h =>
    by_cases inside : length ≤ capacity
    · cases fill <;> simp [kind, inside]
    · simp only [inside, dite_false, if_false]
      exact (fits_filled length _).kind_eq.trans (if_neg inside)
  | heap items =>
    by_cases inside : length ≤ capacity
    · simp only [inside, if_true]
      exact (fits_filled length _).kind_eq.trans (if_pos inside)
    · cases fill <;> simp [kind, inside]

/-! ### Writing -/

theorem length_modify (s : Storage α capacity) (rule : Nat → α → α) :
    (s.modify rule).length = s.length := by
  rw [← length_toList, toList_modify, List.length_mapIdx, length_toList]

theorem kind_modify (s : Storage α capacity) (rule : Nat → α → α) :
    (s.modify rule).kind = s.kind := by
  cases s <;> rfl

/-- A write that succeeds is the write of one item that is there. -/
theorem set_eq_ok_iff (s t : Storage α capacity) (i : Nat) (value : α) :
    s.set i value = .ok t ↔ i < s.length ∧ s.put i value = t := by
  unfold set
  by_cases inside : i < s.length <;> simp [inside]

theorem writeEachOf_shape (rule : Storage α capacity → Nat → Except Fault α) (indices : List Nat)
    (s : Storage α capacity) :
    (writeEachOf rule indices s).1.length = s.length ∧
      (writeEachOf rule indices s).1.kind = s.kind := by
  induction indices generalizing s with
  | nil => exact ⟨rfl, rfl⟩
  | cons i rest ih =>
    unfold writeEachOf
    cases rule s i with
    | error fault => exact ⟨rfl, rfl⟩
    | ok value =>
      obtain ⟨sameLength, sameKind⟩ := ih (s.put i value)
      exact ⟨sameLength.trans (length_put s i value), sameKind.trans (kind_put s i value)⟩

theorem length_writeEach (s : Storage α capacity)
    (rule : Storage α capacity → Nat → Except Fault α) :
    (s.writeEach rule).1.length = s.length :=
  (writeEachOf_shape rule _ s).1

theorem kind_writeEach (s : Storage α capacity)
    (rule : Storage α capacity → Nat → Except Fault α) : (s.writeEach rule).1.kind = s.kind :=
  (writeEachOf_shape rule _ s).2

end Raster.Storage
