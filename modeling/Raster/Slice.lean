import Raster.Fault

/-!
# Slices

A slice is a consecutive part of a buffer that it shares with others. Reading it is by index, and an
index past its end is a fault even where the buffer goes on.
-/

namespace Raster

structure Slice (α : Type) where
  buffer : Array α
  start : Nat
  length : Nat
  start_add_length_le : start + length ≤ buffer.size

namespace Slice

variable {α : Type}

def get? (s : Slice α) (i : Nat) : Option α :=
  if h : i < s.length then
    have := s.start_add_length_le
    some s.buffer[s.start + i]
  else none

def read (s : Slice α) (i : Nat) : Except Fault α :=
  match s.get? i with
  | some v => .ok v
  | none => .error (.indexOutOfBounds s.length i)

/-- The part from `start` up to `stop`, which must lie in the slice. -/
def extract (s : Slice α) (start stop : Nat) : Except Fault (Slice α) :=
  if h : start ≤ stop ∧ stop ≤ s.length then
    .ok ⟨s.buffer, s.start + start, stop - start, by have := s.start_add_length_le; omega⟩
  else .error (.rangeOutOfBounds s.length stop)

/-- The empty part at the start. -/
def empty (s : Slice α) : Slice α :=
  ⟨s.buffer, s.start, 0, by have := s.start_add_length_le; omega⟩

def toArray (s : Slice α) : Array α :=
  s.buffer.extract s.start (s.start + s.length)

def toList (s : Slice α) : List α :=
  s.toArray.toList

theorem get?_eq_toArray (s : Slice α) (i : Nat) : s.get? i = s.toArray[i]? := by
  have := s.start_add_length_le
  by_cases h : i < s.length
  · have inside : s.start + i < s.buffer.size := by omega
    simp [get?, toArray, h, Nat.min_eq_left s.start_add_length_le]
  · simp [get?, toArray, h, Nat.min_eq_left s.start_add_length_le]

theorem size_toArray (s : Slice α) : s.toArray.size = s.length := by
  have := s.start_add_length_le
  simp [toArray]
  omega

theorem length_toList (s : Slice α) : s.toList.length = s.length := by
  rw [toList, Array.length_toList, size_toArray]

theorem get?_eq_toList (s : Slice α) (i : Nat) : s.get? i = s.toList[i]? := by
  rw [get?_eq_toArray, toList, Array.getElem?_toList]

theorem get?_eq_none_iff (s : Slice α) (i : Nat) : s.get? i = none ↔ s.length ≤ i := by
  rw [get?_eq_toList, List.getElem?_eq_none_iff, length_toList]

theorem exists_get? (s : Slice α) (i : Nat) (inside : i < s.length) : ∃ v, s.get? i = some v := by
  cases found : s.get? i with
  | none =>
    have outside := (s.get?_eq_none_iff i).mp found
    omega
  | some v => exact ⟨v, rfl⟩

theorem read_eq_ok_iff (s : Slice α) (i : Nat) (v : α) : s.read i = .ok v ↔ s.get? i = some v := by
  unfold read
  cases s.get? i <;> simp

theorem read_of_length_le (s : Slice α) (i : Nat) (outside : s.length ≤ i) :
    s.read i = .error (.indexOutOfBounds s.length i) := by
  unfold read
  rw [(s.get?_eq_none_iff i).mpr outside]

theorem read_congr (s t : Slice α) (i j : Nat) (inside : j < t.length)
    (same : s.get? i = t.get? j) : s.read i = t.read j := by
  obtain ⟨v, found⟩ := t.exists_get? j inside
  rw [(s.read_eq_ok_iff i v).mpr (same.trans found), (t.read_eq_ok_iff j v).mpr found]

/-- A part that lies in the slice starts at its own first item and has no others. -/
theorem extract_eq_ok (s : Slice α) (start stop : Nat) (ordered : start ≤ stop)
    (inside : stop ≤ s.length) :
    ∃ part, s.extract start stop = .ok part ∧ part.length = stop - start ∧
      ∀ i < stop - start, part.get? i = s.get? (start + i) := by
  unfold extract
  rw [dif_pos ⟨ordered, inside⟩]
  refine ⟨_, rfl, rfl, fun i below => ?_⟩
  have before : start + i < s.length := by omega
  simp only [get?, below, before, dite_true, Nat.add_assoc]

end Slice

end Raster
