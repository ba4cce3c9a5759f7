import Mathlib.Data.List.Basic
import Raster.Proofs.Storage.Visible

/-!
# Runs of length changes without a fill

The length of a storage is changed again and again, with no fill and no write in between. What the
storage shows in the end depends on where it lies. Slots keep what they hold however short the
storage was meanwhile. The heap forgets whatever lay past the shortest length. A change of kind
forgets everything, and the storage is fresh from then on: no item is ever shown again, not even
one from a hidden slot.
-/

namespace Raster.Storage

variable {α : Type} {capacity : Nat} [Inhabited α]

/-- The storage after its length became each of these in turn, with no fill. -/
def setLengths (s : Storage α capacity) : List Nat → Storage α capacity
  | [] => s
  | length :: rest => setLengths (s.setLength length none).1 rest

/-- Some step of the run selects another kind than the storage has by then. -/
def ChangesKind (s : Storage α capacity) : List Nat → Prop
  | [] => False
  | length :: rest =>
    (s.setLength length none).1.kind ≠ s.kind ∨ ChangesKind (s.setLength length none).1 rest

/-! ### Steps -/

theorem setLength_inline (slots : Vector α capacity) (n length : Nat) (h : n ≤ capacity)
    (fits : length ≤ capacity) :
    ((inline slots n h).setLength length none).1 = inline slots length fits := by
  simp [setLength, fits]

/-- All that a step can do: show another count of the same slots, cut or extend the items on the
heap, or start anew in the other kind. -/
theorem setLength_cases (s : Storage α capacity) (length : Nat) :
    (∃ slots n h fits, s = inline slots n h ∧
      (s.setLength length none).1 = inline slots length fits) ∨
    (∃ items, s = heap items ∧ (s.setLength length none).1 = heap (resized items length)) ∨
    (s.setLength length none).1.kind ≠ s.kind ∧
      (s.setLength length none).1 = filled length default := by
  by_cases inside : length ≤ capacity
  · cases s with
    | inline slots n h => exact .inl ⟨slots, n, h, inside, rfl, setLength_inline slots n length h _⟩
    | heap items =>
      have started : ((heap items : Storage α capacity).setLength length none).1 =
          filled length default := by simp [setLength, inside]
      refine .inr (.inr ⟨?_, started⟩)
      rw [started, (fits_filled length _).kind_eq, if_pos inside]
      simp [kind]
  · cases s with
    | inline slots n h =>
      have started : ((inline slots n h).setLength length none).1 = filled length default := by
        simp [setLength, inside]
      refine .inr (.inr ⟨?_, started⟩)
      rw [started, (fits_filled length _).kind_eq, if_neg inside]
      simp [kind]
    | heap items => exact .inr (.inl ⟨items, rfl, by simp [setLength, inside]⟩)

/-! ### Length and kind -/

theorem length_setLengths (s : Storage α capacity) (lengths : List Nat) :
    (s.setLengths lengths).length = lengths.getLastD s.length := by
  induction lengths generalizing s with
  | nil => rfl
  | cons length rest ih =>
    rw [setLengths, ih, length_setLength, List.getLastD_cons]

/-- A run changes the kind exactly if one of its lengths calls for another kind than the first. -/
theorem changesKind_iff_exists (s : Storage α capacity) (lengths : List Nat) :
    s.ChangesKind lengths ↔
      ∃ length ∈ lengths, s.kind ≠ if length ≤ capacity then .inline else .heap := by
  induction lengths generalizing s with
  | nil => simp [ChangesKind]
  | cons length rest ih =>
    have selected := (fits_setLength s length none).kind_eq
    rw [ChangesKind, ih, List.exists_mem_cons_iff, selected, ne_comm]
    -- A first step that changes the kind settles the question, and any other leaves it as it was.
    by_cases same : s.kind = if length ≤ capacity then .inline else .heap
    · rw [← same]
    · exact iff_of_true (Or.inl same) (Or.inl same)

/-- A run keeps the kind exactly if it stays on one side of the capacity, the side it began on. -/
theorem changesKind_iff (s : Storage α capacity) (lengths : List Nat) :
    s.ChangesKind lengths ↔
      ¬(s.kind = .inline ∧ ∀ length ∈ lengths, length ≤ capacity) ∧
        ¬(s.kind = .heap ∧ ∀ length ∈ lengths, capacity < length) := by
  rw [changesKind_iff_exists]
  cases kind : s.kind with
  | inline =>
    have leaves (length : Nat) :
        StorageKind.inline ≠ (if length ≤ capacity then .inline else .heap) ↔
          ¬length ≤ capacity := by
      by_cases fits : length ≤ capacity <;> simp [fits]
    simp [leaves]
  | heap =>
    have leaves (length : Nat) :
        StorageKind.heap ≠ (if length ≤ capacity then .inline else .heap) ↔
          length ≤ capacity := by
      by_cases fits : length ≤ capacity <;> simp [fits]
    simp [leaves]

/-! ### Within the slots -/

/-- Steps within the slots leave no trace of each other: only the last length counts. -/
theorem setLengths_inline (slots : Vector α capacity) (n : Nat) (h : n ≤ capacity)
    (lengths : List Nat) (fit : ∀ length ∈ lengths, length ≤ capacity)
    (last_fits : lengths.getLastD n ≤ capacity) :
    (inline slots n h).setLengths lengths = inline slots (lengths.getLastD n) last_fits := by
  induction lengths generalizing n with
  | nil => rfl
  | cons length rest ih =>
    obtain ⟨fits, restFit⟩ := List.forall_mem_cons.mp fit
    simp only [List.getLastD_cons] at last_fits ⊢
    rw [setLengths, setLength_inline slots n length h fits]
    exact ih length fits restFit last_fits

/-! ### On the heap -/

/-- The storage lies on the heap and shows the first `kept` of these items, which is all that is
left of them, followed by default values. -/
structure Keeps (s : Storage α capacity) (items : List α) (kept : Nat) : Prop where
  kind_eq : s.kind = .heap
  kept_le : kept ≤ items.length
  kept_le_length : kept ≤ s.length
  toList_eq : s.toList = items.take kept ++ List.replicate (s.length - kept) default

theorem keeps_self (s : Storage α capacity) (heap : s.kind = .heap) :
    s.Keeps s.toList s.length where
  kind_eq := heap
  kept_le := Nat.le_of_eq s.length_toList.symm
  kept_le_length := Nat.le_refl _
  toList_eq := by simp [← s.length_toList]

/-- A step on the heap keeps no item past the new length, and what it adds are default values. -/
theorem Keeps.setLength {s : Storage α capacity} {items : List α} {kept : Nat}
    (keeps : s.Keeps items kept) (length : Nat) (beyond : capacity < length) :
    (s.setLength length none).1.Keeps items (min kept length) := by
  have outside : ¬length ≤ capacity := Nat.not_le.mpr beyond
  have stays := toList_setLength_none s length fun inline _ => by
    rw [keeps.kind_eq] at inline
    cases inline
  rw [keeps.kind_eq, if_neg outside, if_pos rfl, keeps.toList_eq] at stays
  have keptInside := keeps.kept_le
  have keptShown := keeps.kept_le_length
  refine ⟨(fits_setLength s length none).kind_eq.trans (if_neg outside), by omega,
    by rw [length_setLength]; omega, ?_⟩
  -- Default values that stay and default values that are added are one run of them.
  have defaults : min (length - kept) (s.length - kept) + (length - s.length) =
      length - min kept length := by omega
  rw [stays, length_setLength, List.take_append, List.take_take, List.length_take_of_le keptInside,
    List.take_replicate, List.append_assoc, List.replicate_append_replicate, defaults,
    Nat.min_comm length kept]

/-- After a run on the heap the shortest length met so far is what is kept. -/
theorem Keeps.setLengths {s : Storage α capacity} {items : List α} {kept : Nat}
    (keeps : s.Keeps items kept) (lengths : List Nat)
    (beyond : ∀ length ∈ lengths, capacity < length) :
    (s.setLengths lengths).Keeps items (lengths.foldl min kept) := by
  induction lengths generalizing s kept with
  | nil => exact keeps
  | cons length rest ih =>
    obtain ⟨firstBeyond, restBeyond⟩ := List.forall_mem_cons.mp beyond
    exact ih (keeps.setLength length firstBeyond) restBeyond

theorem lt_foldl_min_iff (i n : Nat) (lengths : List Nat) :
    i < lengths.foldl min n ↔ i < n ∧ ∀ length ∈ lengths, i < length := by
  induction lengths generalizing n with
  | nil => simp
  | cons length rest ih =>
    rw [List.foldl_cons, ih, Nat.lt_min, List.forall_mem_cons, and_assoc]

/-- What is kept of an item is the item itself, and anything else that is shown is a default. -/
theorem Keeps.getElem? {s : Storage α capacity} {items : List α} {kept : Nat}
    (keeps : s.Keeps items kept) (i : Nat) (inside : i < s.length) :
    s.toList[i]? = if i < kept then items[i]? else some default := by
  have keptInside : (items.take kept).length = kept := List.length_take_of_le keeps.kept_le
  rw [keeps.toList_eq]
  by_cases below : i < kept
  · rw [if_pos below, List.getElem?_append_left (by omega), List.getElem?_take_of_lt below]
  · rw [if_neg below, List.getElem?_append_right (by omega), List.getElem?_replicate, if_pos]
    omega

/-! ### Across a change of kind -/

/-- Nothing but default values, in the hidden slots too. -/
def IsFresh : Storage α capacity → Prop
  | inline slots _ _ => slots = Vector.replicate capacity default
  | heap items => items = Array.replicate items.size default

theorem IsFresh.toList_eq {s : Storage α capacity} (fresh : s.IsFresh) :
    s.toList = List.replicate s.length default := by
  cases s with
  | inline slots n h =>
    have defaults : slots = Vector.replicate capacity default := fresh
    rw [toList_inline, defaults]
    simp [length, h]
  | heap items =>
    have defaults : items = Array.replicate items.size default := fresh
    rw [toList_heap, defaults]
    simp [length]

theorem isFresh_filled (length : Nat) : (filled length default : Storage α capacity).IsFresh := by
  rw [filled]
  split <;> simp [IsFresh]

/-- A change of kind starts afresh. -/
theorem isFresh_of_kind_ne (s : Storage α capacity) (length : Nat)
    (changed : (s.setLength length none).1.kind ≠ s.kind) : (s.setLength length none).1.IsFresh := by
  rcases s.setLength_cases length with ⟨_, _, _, _, rfl, slots⟩ | ⟨_, rfl, items⟩ | ⟨-, started⟩
  · exact absurd (congrArg kind slots) changed
  · exact absurd (congrArg kind items) changed
  · rw [started]
    exact isFresh_filled length

/-- A fresh storage stays fresh: there is no item left that a step could show. -/
theorem IsFresh.setLength {s : Storage α capacity} (fresh : s.IsFresh) (length : Nat) :
    (s.setLength length none).1.IsFresh := by
  rcases s.setLength_cases length with ⟨_, _, _, _, rfl, slots⟩ | ⟨old, rfl, items⟩ | ⟨-, started⟩
  · rw [slots]
    exact fresh
  · -- Default values that are kept and default values that are added are the same.
    have defaults : old = Array.replicate old.size default := fresh
    rw [items, defaults]
    simp [IsFresh, resized]
  · rw [started]
    exact isFresh_filled length

theorem IsFresh.setLengths {s : Storage α capacity} (fresh : s.IsFresh) (lengths : List Nat) :
    (s.setLengths lengths).IsFresh := by
  induction lengths generalizing s with
  | nil => exact fresh
  | cons length rest ih => exact ih (fresh.setLength length)

theorem ChangesKind.isFresh {s : Storage α capacity} {lengths : List Nat}
    (changes : s.ChangesKind lengths) : (s.setLengths lengths).IsFresh := by
  induction lengths generalizing s with
  | nil => exact changes.elim
  | cons length rest ih =>
    rcases changes with first | later
    · exact (isFresh_of_kind_ne s length first).setLengths rest
    · exact ih later

/-! ### What is exposed -/

/-- What any storage shows after a run of length changes without a fill. Within the slots the run
is as good as its last step, so items come back that were hidden meanwhile. On the heap an item
survives if no length of the run excluded it. In every other run some step changes the kind, and
nothing but default values is shown. -/
theorem setLengths_exposes (s : Storage α capacity) (lengths : List Nat) (last : Nat)
    (ends : lengths.getLast? = some last) :
    (s.setLengths lengths).length = last ∧
      (s.kind = .inline → (∀ length ∈ lengths, length ≤ capacity) →
        s.setLengths lengths = (s.setLength last none).1 ∧
          ∀ i < min s.length last, (s.setLengths lengths).toList[i]? = s.toList[i]?) ∧
      (s.kind = .heap → (∀ length ∈ lengths, capacity < length) →
        ∀ i < last, (s.setLengths lengths).toList[i]? =
          if i < s.length ∧ ∀ length ∈ lengths, i < length then s.toList[i]? else some default) ∧
      (s.ChangesKind lengths → (s.setLengths lengths).toList = List.replicate last default) ∧
      (s.ChangesKind lengths ↔
        ¬(s.kind = .inline ∧ ∀ length ∈ lengths, length ≤ capacity) ∧
          ¬(s.kind = .heap ∧ ∀ length ∈ lengths, capacity < length)) := by
  have lastD (n : Nat) : lengths.getLastD n = last := by simp [List.getLastD_eq_getLast?, ends]
  have shown : (s.setLengths lengths).length = last := (length_setLengths s lengths).trans (lastD _)
  refine ⟨shown, fun inline fit => ?_, fun heap beyond i inside => ?_, fun changes => ?_,
    changesKind_iff s lengths⟩
  · have lastFits : last ≤ capacity := fit last (List.mem_of_getLast? ends)
    cases s with
    | heap items => cases inline
    | inline slots n h =>
      have closed := setLengths_inline slots n h lengths fit (by rwa [lastD])
      simp only [lastD] at closed
      refine ⟨by rw [closed, setLength_inline], fun i below => ?_⟩
      have belowFirst : i < n := (Nat.lt_min.mp below).1
      have belowLast : i < last := (Nat.lt_min.mp below).2
      rw [closed, toList_inline, toList_inline, List.getElem?_take_of_lt belowLast,
        List.getElem?_take_of_lt belowFirst]
  · have keeps := (s.keeps_self heap).setLengths lengths beyond
    rw [keeps.getElem? i (by rwa [shown])]
    simp only [lt_foldl_min_iff]
  · rw [changes.isFresh.toList_eq, shown]

/-- Storages with two slots. Items that the first step hides are shown again by the second. On the
heap such a detour loses the items that it excludes, and a detour through the other kind loses
all. -/
theorem setLengths_exposes_detours :
    let short : Storage Nat 2 := .ofArray #[1, 2]
    let long : Storage Nat 2 := .ofArray #[1, 2, 3, 4, 5]
    (short.setLengths [0, 2]).toList[1]? = some 2 ∧
      short.setLengths [0, 1] = (short.setLength 1 none).1 ∧
      (long.setLengths [3, 6]).toList[2]? = some 3 ∧
      (long.setLengths [3, 6]).toList[4]? = some 0 ∧
      (short.setLengths [3, 2]).toList = [0, 0] := by
  intro short long
  obtain ⟨-, remembers, -⟩ := setLengths_exposes short [0, 2] 2 rfl
  obtain ⟨-, lastOnly, -⟩ := setLengths_exposes short [0, 1] 1 rfl
  obtain ⟨-, -, survives, -⟩ := setLengths_exposes long [3, 6] 6 rfl
  obtain ⟨-, -, -, forgets, changes⟩ := setLengths_exposes short [3, 2] 2 rfl
  refine ⟨(remembers rfl (by decide)).2 1 (by decide), (lastOnly rfl (by decide)).1,
    survives rfl (by decide) 2 (by decide), survives rfl (by decide) 4 (by decide), ?_⟩
  exact forgets (changes.mpr ⟨by decide, by decide⟩)

end Raster.Storage
