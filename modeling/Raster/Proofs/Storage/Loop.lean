import Raster.Proofs.Storage.Shape

/-!
# Writing every item in order

`Storage.writeEach` hands its rule the storage as it is so far. Two rules that agree on an item as
long as it has not been written leave the same storage, so a rule that reads only the item that it
is about to write may read it from the storage itself. A rule that never faults leaves its own
value in every place.
-/

namespace Raster.Storage

variable {α : Type} {capacity : Nat}

theorem get?_items (s : Storage α capacity) (i : Nat) : s.items.get? i = s.toList[i]? :=
  s.items.get?_eq_toList i

/-- A write is seen at its own index and nowhere else. -/
theorem getElem?_put_of_ne (s : Storage α capacity) (i j : Nat) (value : α) (other : i ≠ j) :
    (s.put i value).toList[j]? = s.toList[j]? := by
  rw [toList_put, List.getElem?_set_ne other]

theorem getElem?_put_self (s : Storage α capacity) (i : Nat) (value : α) (inside : i < s.length) :
    (s.put i value).toList[i]? = some value := by
  rw [toList_put, List.getElem?_set_self]
  rwa [length_toList]

/-! ### Rules that agree on unwritten items -/

private theorem writeEachOf_congr (start : Storage α capacity)
    (rule other : Storage α capacity → Nat → Except Fault α)
    (agree : ∀ t i, i < start.length → t.toList[i]? = start.toList[i]? → rule t i = other t i)
    (indices : List Nat) (distinct : indices.Nodup) (inside : ∀ i ∈ indices, i < start.length)
    (s : Storage α capacity) (unwritten : ∀ i ∈ indices, s.toList[i]? = start.toList[i]?) :
    writeEachOf rule indices s = writeEachOf other indices s := by
  -- The storage changes from step to step. What stays is that no index to come has been written.
  induction indices generalizing s with
  | nil => rfl
  | cons i rest ih =>
    obtain ⟨fresh, restDistinct⟩ := List.nodup_cons.mp distinct
    have here : rule s i = other s i :=
      agree s i (inside i (by simp)) (unwritten i (by simp))
    unfold writeEachOf
    rw [here]
    cases other s i with
    | error fault => rfl
    | ok value =>
      apply ih restDistinct (fun j member => inside j (List.mem_cons_of_mem _ member))
      -- The rest of the indices does not contain the one just written.
      intro j member
      have other : i ≠ j := fun same => fresh (same ▸ member)
      rw [getElem?_put_of_ne s i j value other]
      exact unwritten j (List.mem_cons_of_mem _ member)

/-- Rules that agree on each item as long as it is unwritten leave the same storage, and fault
alike. -/
theorem writeEach_congr (s : Storage α capacity)
    (rule other : Storage α capacity → Nat → Except Fault α)
    (agree : ∀ t i, i < s.length → t.toList[i]? = s.toList[i]? → rule t i = other t i) :
    s.writeEach rule = s.writeEach other :=
  writeEachOf_congr s rule other agree _ List.nodup_range (fun _ member => List.mem_range.mp member)
    s (fun _ _ => rfl)

/-! ### Rules that never fault -/

private theorem writeEachOf_total (rule : Nat → Except Fault α) (indices : List Nat)
    (s : Storage α capacity) (inside : ∀ i ∈ indices, i < s.length)
    (total : ∀ i ∈ indices, ∃ v, rule i = .ok v) :
    (writeEachOf (fun _ i => rule i) indices s).2 = none ∧
      (∀ i ∈ indices, ∃ v, rule i = .ok v ∧
        (writeEachOf (fun _ i => rule i) indices s).1.toList[i]? = some v) ∧
      ∀ i, i ∉ indices →
        (writeEachOf (fun _ i => rule i) indices s).1.toList[i]? = s.toList[i]? := by
  -- That the other indices keep their items is what later steps need of the one written first.
  induction indices generalizing s with
  | nil => exact ⟨rfl, by simp, fun _ _ => rfl⟩
  | cons i rest ih =>
    obtain ⟨value, gives⟩ := total i (by simp)
    have restInside : ∀ j ∈ rest, j < (s.put i value).length := by
      intro j member
      rw [length_put]
      exact inside j (List.mem_cons_of_mem _ member)
    obtain ⟨noFault, written, kept⟩ :=
      ih (s.put i value) restInside fun j member => total j (List.mem_cons_of_mem _ member)
    simp only [writeEachOf, gives]
    refine ⟨noFault, ?_, ?_⟩
    · intro j member
      by_cases again : j ∈ rest
      · exact written j again
      · obtain rfl : j = i := by simpa [again] using member
        refine ⟨value, gives, ?_⟩
        rw [kept j again, getElem?_put_self s j value (inside j (by simp))]
    · intro j absent
      obtain ⟨other, restAbsent⟩ := not_or.mp (fun either => absent (List.mem_cons.mpr either))
      rw [kept j restAbsent, getElem?_put_of_ne s i j value (Ne.symm other)]

/-- A rule that gives a value at every index writes all of them. -/
theorem writeEach_total (s : Storage α capacity) (rule : Nat → Except Fault α)
    (total : ∀ i < s.length, ∃ v, rule i = .ok v) :
    (s.writeEach fun _ i => rule i).2 = none ∧
      ∀ i < s.length, ∃ v, rule i = .ok v ∧
        (s.writeEach fun _ i => rule i).1.toList[i]? = some v := by
  obtain ⟨noFault, written, -⟩ := writeEachOf_total rule (List.range s.length) s
    (fun _ member => List.mem_range.mp member) (fun i member => total i (List.mem_range.mp member))
  exact ⟨noFault, fun i inside => written i (List.mem_range.mpr inside)⟩

end Raster.Storage
