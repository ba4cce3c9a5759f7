import Raster.Proofs.Agreement
import Raster.Image

/-!
# Reads stay within slices

A slice shares its buffer with others, and hidden slots of a storage lie in the buffer too. No read
of a slice or of a view on it depends on anything but the items of the slice. To say so, a slice is
moved to a buffer of its own: slices with the same items become the same slice then, and views that
cannot be told apart become the same view.
-/

namespace Raster

namespace Slice

variable {α : Type}

/-- The same items in a buffer that holds no others. -/
def compact (s : Slice α) : Slice α :=
  ⟨s.toArray, 0, s.length, Nat.le_of_eq (by rw [Nat.zero_add, s.size_toArray])⟩

theorem length_compact (s : Slice α) : s.compact.length = s.length :=
  rfl

theorem toArray_compact (s : Slice α) : s.compact.toArray = s.toArray := by
  change s.toArray.extract 0 (0 + s.length) = s.toArray
  rw [Nat.zero_add, ← s.size_toArray]
  exact Array.extract_size

theorem get?_compact (s : Slice α) (i : Nat) : s.compact.get? i = s.get? i := by
  rw [get?_eq_toArray, get?_eq_toArray, toArray_compact]

theorem read_compact (s : Slice α) (i : Nat) : s.compact.read i = s.read i := by
  unfold read
  rw [get?_compact]
  rfl

theorem compact_eq_iff (s t : Slice α) : s.compact = t.compact ↔ s.toList = t.toList := by
  constructor
  · intro same
    have arrays : s.toArray = t.toArray := congrArg buffer same
    rw [toList, toList, arrays]
  · intro same
    have arrays : s.toArray = t.toArray := Array.toList_inj.mp same
    have lengths : s.length = t.length := by rw [← s.size_toArray, ← t.size_toArray, arrays]
    simp only [compact, arrays, lengths]

/-- Slices with the same items at all indices have the same items. -/
theorem compact_eq_of_get? (s t : Slice α) (same : ∀ i, s.get? i = t.get? i) :
    s.compact = t.compact := by
  apply (compact_eq_iff s t).mpr
  apply List.ext_getElem?
  intro i
  rw [← s.get?_eq_toList, ← t.get?_eq_toList, same]

/-- The parts cut out of slices with the same items have the same items. -/
theorem extract_agree (s t : Slice α) (same : s.compact = t.compact) (start stop : Nat) :
    Agree (fun part other => part.compact = other.compact) (s.extract start stop)
      (t.extract start stop) := by
  have lengths : s.length = t.length := by rw [← s.length_compact, same, t.length_compact]
  have items (i : Nat) : s.get? i = t.get? i := by rw [← s.get?_compact, same, t.get?_compact]
  by_cases inside : start ≤ stop ∧ stop ≤ s.length
  · obtain ⟨part, found, length, reads⟩ := s.extract_eq_ok start stop inside.1 inside.2
    obtain ⟨other, foundOther, lengthOther, readsOther⟩ :=
      t.extract_eq_ok start stop inside.1 (lengths ▸ inside.2)
    rw [found, foundOther]
    refine .ok (compact_eq_of_get? part other fun i => ?_)
    by_cases below : i < stop - start
    · rw [reads i below, readsOther i below, items]
    · have beyond := Nat.le_of_not_lt below
      rw [(part.get?_eq_none_iff i).mpr (length ▸ beyond),
        (other.get?_eq_none_iff i).mpr (lengthOther ▸ beyond)]
  · have outside : ¬(start ≤ stop ∧ stop ≤ t.length) := lengths ▸ inside
    unfold extract
    rw [dif_neg inside, dif_neg outside, lengths]
    exact .error _

theorem compact_empty_eq (s t : Slice α) : s.empty.compact = t.empty.compact :=
  compact_eq_of_get? _ _ fun _ => rfl

end Slice

namespace View

variable {α : Type}

/-- The same view on a buffer that holds nothing before its first or after its last pixel. -/
def compact (v : View α) : View α :=
  { v with data := v.data.compact }

theorem size_compact (v : View α) : v.compact.size = v.size :=
  rfl

theorem read_compact (v : View α) (i : Nat) : v.compact.read i = v.read i := by
  simp only [read, compact, Slice.read_compact]

theorem row_agree (v : View α) (y : Nat) :
    Agree (fun row other => row.compact = other.compact) (v.compact.row y) (v.row y) := by
  have same : v.data.compact.compact = v.data.compact :=
    Slice.compact_eq_of_get? _ _ v.data.get?_compact
  exact Slice.extract_agree _ _ same _ _

theorem values_compact (v : View α) : v.compact.values = v.values := by
  have rows : (fun (seen : Array α) y => (do return seen ++ (← v.compact.row y).toArray)) =
      fun seen y => (do return seen ++ (← v.row y).toArray : Except Fault (Array α)) := by
    funext seen y
    apply (v.row_agree y).bind_eq
    intro row other same
    rw [← row.toArray_compact, same, other.toArray_compact]
  unfold values
  rw [rows]
  rfl

theorem toImage_compact [Inhabited α] (v : View α) : v.compact.toImage = v.toImage := by
  unfold toImage
  rw [values_compact]
  rfl

/-- Windows onto views that show the same show the same. -/
theorem subView_agree (u v : View α) (same : u.compact = v.compact) (rect : Rect) :
    Agree (fun window other => window.compact = other.compact) (u.subView rect)
      (v.subView rect) := by
  -- Views that show the same have the same numbers, so both refuse the rectangle, or neither does.
  obtain ⟨data, width, height, stride⟩ := u
  obtain ⟨otherData, otherWidth, otherHeight, otherStride⟩ := v
  simp only [compact, mk.injEq] at same
  obtain ⟨sameData, rfl, rfl, rfl⟩ := same
  simp only [subView, size]
  split
  · exact .error _
  · split
    · refine .ok ?_
      simp only [compact, Slice.compact_empty_eq data otherData]
    · apply ((Slice.extract_agree data otherData sameData _ _).mapError Failure.fault).bind
      intro part other sameParts
      refine .ok ?_
      simp only [compact, sameParts]

theorem subViews_agree (u v : View α) (same : u.compact = v.compact) (rects : List Rect) :
    Agree (fun window other => window.compact = other.compact) (u.subViews rects)
      (v.subViews rects) := by
  induction rects generalizing u v with
  | nil => exact .ok same
  | cons rect rest ih =>
    simp only [subViews, List.foldlM_cons]
    exact (u.subView_agree v same rect).bind ih

end View

end Raster
