import Raster.Proofs.Pixel.Order
import Raster.Proofs.View.Window

/-!
# The range of a view

The range is found in one pass that keeps the least and the greatest pixel so far. A pixel takes the
place of the one that is kept only if it goes before it, so of equal pixels the first one stays. The
pass leaves out the pixels that are in no order. Where they stand in between does not matter to it,
but indices are counted over all pixels.
-/

namespace Raster

/-! ### One pass over a list -/

/-- The item stands in the list, goes before all that stand in front of it, and after none. -/
structure IsFirstLeast {α : Type} (order : α → α → Ordering) (items : List α) (x : α) : Prop where
  split : ∃ front back, items = front ++ x :: back ∧ ∀ y ∈ front, order x y = .lt
  isLE : ∀ y ∈ items, (order x y).isLE = true

namespace IsFirstLeast

variable {α : Type} {order : α → α → Ordering} {items : List α} {x : α}

theorem singleton [Std.TransCmp order] (x : α) : IsFirstLeast order [x] x where
  split := ⟨[], [], rfl, by simp⟩
  isLE y member := by
    rw [List.mem_singleton.mp member]
    exact Std.ReflCmp.isLE_rfl

theorem mem (least : IsFirstLeast order items x) : x ∈ items := by
  obtain ⟨front, back, rfl, -⟩ := least.split
  simp

/-- One more item takes the place of the least one only if it goes before it. -/
theorem concat [Std.TransCmp order] (least : IsFirstLeast order items x) (y : α) :
    IsFirstLeast order (items ++ [y]) (if order y x = .lt then y else x) := by
  split
  next before =>
    -- What goes before the least item goes before all that it goes before or equals.
    have below (z) (member : z ∈ items) : order y z = .lt :=
      Std.TransCmp.lt_of_lt_of_isLE before (least.isLE z member)
    refine ⟨⟨items, [], rfl, below⟩, fun z member => ?_⟩
    rcases List.mem_append.mp member with old | new
    · rw [below z old]
      rfl
    · rw [List.mem_singleton.mp new]
      exact Std.ReflCmp.isLE_rfl
  next stays =>
    obtain ⟨front, back, rfl, after⟩ := least.split
    refine ⟨⟨front, back ++ [y], by simp, after⟩, fun z member => ?_⟩
    rcases List.mem_append.mp member with old | new
    · exact least.isLE z old
    · rw [List.mem_singleton.mp new]
      exact Std.OrientedCmp.isLE_of_isGE (Ordering.ne_lt_iff_isGE.mp stays)

/-- The first least one of some of the items stands at an index among all of them. -/
theorem exists_index (keep : α → Bool) (least : IsFirstLeast order (items.filter keep) x) :
    ∃ i : Nat, items[i]? = some x ∧ keep x = true ∧ ∀ (j : Nat) (y : α), items[j]? = some y →
      keep y = true → (order x y).isLE = true ∧ (j < i → order x y = .lt) := by
  obtain ⟨front, back, split, after⟩ := least.split
  obtain ⟨before, rest, rfl, keptBefore, keptRest⟩ := List.filter_eq_append_iff.mp split
  obtain ⟨skipped, others, rfl, dropped, kept, -⟩ := List.filter_eq_cons_iff.mp keptRest
  refine ⟨(before ++ skipped).length, ?_, kept, fun j y found keptY => ⟨?_, fun earlier => ?_⟩⟩
  · rw [← List.append_assoc, List.getElem?_append_right (Nat.le_refl _), Nat.sub_self]
    rfl
  · exact least.isLE y (List.mem_filter.mpr ⟨List.mem_of_getElem? found, keptY⟩)
  · rw [← List.append_assoc, List.getElem?_append_left earlier] at found
    -- Of the items before the index, only those that are left out stand behind `front`.
    rcases List.mem_append.mp (List.mem_of_getElem? found) with inFront | inSkipped
    · exact after y (keptBefore ▸ List.mem_filter.mpr ⟨inFront, keptY⟩)
    · exact absurd keptY (dropped y inSkipped)

end IsFirstLeast

namespace View

variable {f : PixelFormat}

/-- The least and the greatest pixel after one more pixel. -/
def widen (range : Pixel f × Pixel f) (p : Pixel f) : Pixel f × Pixel f :=
  (if p.lessThan range.1 then p else range.1, if range.2.lessThan p then p else range.2)

theorem bounds_cons (first : Pixel f) (rest : List (Pixel f)) :
    bounds (first :: rest) = some (rest.foldl widen (first, first)) :=
  rfl

theorem bounds_eq_none_iff (pixels : List (Pixel f)) : bounds pixels = none ↔ pixels = [] := by
  cases pixels with
  | nil => simp [bounds]
  | cons first rest => simp [bounds_cons]

/-- The first of the least pixels, and the first of the greatest ones. -/
structure AreBounds (pixels : List (Pixel f)) (range : Pixel f × Pixel f) : Prop where
  low : IsFirstLeast Pixel.byRank pixels range.1
  high : IsFirstLeast (fun p q => q.byRank p) pixels range.2

theorem AreBounds.widen {seen : List (Pixel f)} {range : Pixel f × Pixel f}
    (bounds : AreBounds seen range) (p : Pixel f)
    (ordered : ∀ q ∈ seen ++ [p], isOrdered q = true) :
    AreBounds (seen ++ [p]) (View.widen range p) := by
  have orderedP := ordered p (by simp)
  have orderedLow := ordered _ (List.mem_append_left [p] bounds.low.mem)
  have orderedHigh := ordered _ (List.mem_append_left [p] bounds.high.mem)
  constructor
  · simp only [View.widen, Pixel.lessThan_iff _ _ orderedP orderedLow]
    exact bounds.low.concat p
  · simp only [View.widen, Pixel.lessThan_iff _ _ orderedHigh orderedP]
    exact bounds.high.concat p

/-- The pass keeps the bounds of all pixels that it has seen. -/
theorem AreBounds.foldl_widen {seen : List (Pixel f)} {range : Pixel f × Pixel f}
    (bounds : AreBounds seen range) (rest : List (Pixel f))
    (ordered : ∀ q ∈ seen ++ rest, isOrdered q = true) :
    AreBounds (seen ++ rest) (rest.foldl View.widen range) := by
  induction rest generalizing seen range with
  | nil => simpa using bounds
  | cons p rest ih =>
    rw [List.append_cons] at ordered ⊢
    have first := bounds.widen p fun q member => ordered q (List.mem_append_left rest member)
    exact ih first ordered

theorem areBounds_of_bounds (pixels : List (Pixel f)) (range : Pixel f × Pixel f)
    (ordered : ∀ q ∈ pixels, isOrdered q = true) (found : bounds pixels = some range) :
    AreBounds pixels range := by
  cases pixels with
  | nil => cases found
  | cons first rest =>
    -- The pass starts with the first pixel as both ends.
    rw [bounds_cons, Option.some.injEq] at found
    subst found
    have start : AreBounds [first] (first, first) := ⟨.singleton first, .singleton first⟩
    exact start.foldl_widen rest ordered

/-! ### Extremes by their indices -/

/-- Of the pixels that are in order with themselves this is the first one, by its index, that no
other goes before. -/
def IsFirstExtreme (before : Pixel f → Pixel f → Bool) (get : Nat → Except Fault (Pixel f))
    (p : Pixel f) : Prop :=
  ∃ i, get i = .ok p ∧ isOrdered p = true ∧ ∀ j q, get j = .ok q → isOrdered q = true →
    before q p = false ∧ (j < i → before p q = true)

/-- The first of the least and the first of the greatest pixels, unless no pixel is in order. -/
structure IsRange (get : Nat → Except Fault (Pixel f)) (range : Option (Pixel f × Pixel f)) :
    Prop where
  eq_none_iff : range = none ↔ ∀ i p, get i = .ok p → isOrdered p = false
  extremes : ∀ low high, range = some (low, high) →
    IsFirstExtreme (fun p q => p.lessThan q) get low ∧
      IsFirstExtreme (fun p q => q.lessThan p) get high

theorem IsFirstExtreme.unique {before : Pixel f → Pixel f → Bool}
    {get : Nat → Except Fault (Pixel f)} {p q : Pixel f} (first : IsFirstExtreme before get p)
    (other : IsFirstExtreme before get q) : p = q := by
  obtain ⟨i, getP, orderedP, besideP⟩ := first
  obtain ⟨j, getQ, orderedQ, besideQ⟩ := other
  obtain ⟨notBeforeP, earlierQ⟩ := besideP j q getQ orderedQ
  obtain ⟨notBeforeQ, earlierP⟩ := besideQ i p getP orderedP
  rcases Nat.lt_trichotomy i j with before | same | after
  · exact absurd (earlierP before) (Bool.eq_false_iff.mp notBeforeP)
  · subst same
    exact Except.ok.inj (getP.symm.trans getQ)
  · exact absurd (earlierQ after) (Bool.eq_false_iff.mp notBeforeQ)

theorem IsRange.unique {get : Nat → Except Fault (Pixel f)}
    {range other : Option (Pixel f × Pixel f)} (first : IsRange get range)
    (second : IsRange get other) : range = other := by
  have none_iff : range = none ↔ other = none := first.eq_none_iff.trans second.eq_none_iff.symm
  -- Either there is no pixel in order, or both ends are told by their indices.
  cases range with
  | none => exact (none_iff.mp rfl).symm
  | some extremes =>
    cases other with
    | none => exact none_iff.mpr rfl
    | some extremes' =>
      obtain ⟨low, high⟩ := first.extremes _ _ rfl
      obtain ⟨low', high'⟩ := second.extremes _ _ rfl
      rw [Option.some.injEq]
      exact Prod.ext (low.unique low') (high.unique high')

theorem isFirstExtreme_of_isFirstLeast {order : Pixel f → Pixel f → Ordering} [Std.TransCmp order]
    {before : Pixel f → Pixel f → Bool}
    (agrees : ∀ p q, isOrdered p = true → isOrdered q = true → (before p q = true ↔ order p q = .lt))
    {get : Nat → Except Fault (Pixel f)} {items : List (Pixel f)}
    (shown : ∀ i p, get i = .ok p ↔ items[i]? = some p) {p : Pixel f}
    (least : IsFirstLeast order (items.filter isOrdered) p) : IsFirstExtreme before get p := by
  obtain ⟨i, found, ordered, others⟩ := least.exists_index
  refine ⟨i, (shown i p).mpr found, ordered, fun j q getQ orderedQ => ?_⟩
  obtain ⟨isLE, earlier⟩ := others j q ((shown j q).mp getQ) orderedQ
  constructor
  · rw [Bool.eq_false_iff, ne_eq, agrees q p orderedQ ordered]
    exact Std.OrientedCmp.not_lt_of_isLE isLE
  · intro inFront
    exact (agrees p q ordered orderedQ).mpr (earlier inFront)

/-- The pass over the pixels that are in order finds the range of all pixels. -/
theorem isRange_bounds {get : Nat → Except Fault (Pixel f)} {items : List (Pixel f)}
    (shown : ∀ i p, get i = .ok p ↔ items[i]? = some p) :
    IsRange get (bounds (items.filter isOrdered)) := by
  constructor
  · rw [bounds_eq_none_iff, List.filter_eq_nil_iff]
    constructor
    · intro unordered i p getP
      rw [← Bool.not_eq_true]
      exact unordered p (List.mem_of_getElem? ((shown i p).mp getP))
    · intro unordered p member
      obtain ⟨i, found⟩ := List.mem_iff_getElem?.mp member
      rw [unordered i p ((shown i p).mpr found)]
      exact Bool.false_ne_true
  · intro low high found
    have ordered (q) (member : q ∈ items.filter isOrdered) : isOrdered q = true :=
      (List.mem_filter.mp member).2
    have extremes := areBounds_of_bounds _ (low, high) ordered found
    constructor
    · exact isFirstExtreme_of_isFirstLeast Pixel.lessThan_iff shown extremes.low
    · apply isFirstExtreme_of_isFirstLeast _ shown extremes.high
      exact fun p q orderedP orderedQ => Pixel.lessThan_iff q p orderedQ orderedP

/-! ### Views and images -/

theorem getLinear_eq_ok_iff (v : View (Pixel f)) (wf : v.WellFormed) (i : Nat) (p : Pixel f) :
    v.getLinear i = .ok p ↔ v.read i = .ok p := by
  by_cases inside : i < v.pixelCount
  · rw [v.getLinear_of_lt wf i inside, v.read_of_lt wf i inside]
  · obtain ⟨fault, faults⟩ := v.read_of_le wf i (Nat.le_of_not_lt inside)
    rw [getLinear, if_neg inside, faults]
    simp

theorem range_eq_bounds (v : View (Pixel f)) (values : Array (Pixel f))
    (all : v.values = .ok values) : v.range = .ok (bounds (values.toList.filter isOrdered)) := by
  rw [range, all]
  rfl

/-- A view has a range, which can be told by any way to read its pixels by their indices. -/
theorem exists_range (v : View (Pixel f)) (wf : v.WellFormed)
    {get : Nat → Except Fault (Pixel f)} (same : ∀ i p, get i = .ok p ↔ v.read i = .ok p) :
    ∃ range, v.range = .ok range ∧ ∀ other, IsRange get other ↔ other = range := by
  obtain ⟨values, all, -, reads⟩ := v.values_eq_ok wf
  have isRange : IsRange get (bounds (values.toList.filter isOrdered)) := by
    apply isRange_bounds
    intro i p
    rw [same i p, ← reads i p, Array.getElem?_toList]
  refine ⟨_, v.range_eq_bounds values all, fun other => ⟨fun second => second.unique isRange, ?_⟩⟩
  rintro rfl
  exact isRange

end View

namespace Image

variable {f : PixelFormat}

theorem read_asView_eq_ok_iff (img : Image (Pixel f)) (i : Nat) (p : Pixel f) :
    img.asView.read i = .ok p ↔ img.get (.linear i) = .ok p := by
  have gapless : img.asView.read i = img.data.read i := if_pos rfl
  rw [gapless]
  rfl

theorem toList_ofArray (width height : UInt32) (pixels : List (Pixel f)) :
    (⟨width, height, .ofArray pixels.toArray⟩ : Image (Pixel f)).data.toList = pixels :=
  Storage.toList_ofArray _

/-- The view of a whole image has the items of the image. -/
theorem values_asView (img : Image (Pixel f)) (wf : img.WellFormed) :
    ∃ values, img.asView.values = .ok values ∧ values.toList = img.data.toList := by
  obtain ⟨values, all, -, reads⟩ := img.asView.values_eq_ok wf.asView
  refine ⟨values, all, ?_⟩
  apply List.ext_getElem?
  intro i
  apply Option.ext
  intro p
  rw [Array.getElem?_toList, reads, read_asView_eq_ok_iff, get_linear_eq_ok_iff]

theorem range_asView (img : Image (Pixel f)) (wf : img.WellFormed) :
    img.asView.range = .ok (View.bounds (img.data.toList.filter View.isOrdered)) := by
  obtain ⟨values, all, items⟩ := img.values_asView wf
  rw [img.asView.range_eq_bounds values all, items]

theorem exists_range (img : Image (Pixel f)) (wf : img.WellFormed) :
    ∃ range, img.asView.range = .ok range ∧
      ∀ other, View.IsRange (fun i => img.get (.linear i)) other ↔ other = range :=
  img.asView.exists_range wf.asView fun i p => (img.read_asView_eq_ok_iff i p).symm

end Image

namespace View

/-- The range of a view or an image. Two pixels that are in order with themselves are in order with
each other, component by component, and nothing but a component that is not a number takes a pixel
out of the order. Without a pixel in order there is no range. Otherwise its ends are the first of the
least and the first of the greatest pixels, and nothing else can be. The pixels that are in no order
could be any others, or not there. -/
theorem range_extremes (f : PixelFormat) :
    (∀ p : Pixel f, isOrdered p = false ↔ p.hasNaN = true) ∧
    (∀ p q : Pixel f, isOrdered p = true → isOrdered q = true →
      p.compare? q = some (compare p.ranks q.ranks)) ∧
    (∀ v : View (Pixel f), v.Reachable →
      ∃ range, v.range = .ok range ∧ ∀ other, IsRange v.getLinear other ↔ other = range) ∧
    (∀ img : Image (Pixel f), img.Reachable →
      ∃ range, img.asView.range = .ok range ∧
        ∀ other, IsRange (fun i => img.get (.linear i)) other ↔ other = range) ∧
    ∀ u v : View (Pixel f), ∀ us vs, u.values = .ok us → v.values = .ok vs →
      us.toList.filter isOrdered = vs.toList.filter isOrdered → u.range = v.range := by
  refine ⟨Pixel.isOrdered_eq_false_iff, Pixel.compare?_of_isOrdered, fun v reachable => ?_,
    fun img reachable => img.exists_range reachable.wellFormed, fun u v us vs allU allV same => ?_⟩
  · exact v.exists_range reachable.wellFormed (v.getLinear_eq_ok_iff reachable.wellFormed)
  · rw [u.range_eq_bounds us allU, v.range_eq_bounds vs allV, same]

/-- The pixel with a word of 32 bits. -/
def single (word : Nat) : Pixel .grayFloat :=
  (Binary.ofBits word : Single)

/-- Zeros of both signs and two fives, among pixels that are no numbers. -/
def mixedZeros : Image (Pixel .grayFloat) :=
  ⟨4, 2, .ofArray ([0x7fc00000, 0x80000000, 0, 0x40a00000,
    0, 0xffc00001, 0x40a00000, 0x40000000].map single).toArray⟩

/-- The numbers of `mixedZeros`. -/
def numbersOnly : Image (Pixel .grayFloat) :=
  ⟨3, 2, .ofArray ([0x80000000, 0, 0x40a00000, 0, 0x40a00000, 0x40000000].map single).toArray⟩

/-- The zeros are equal, so the negative one counts, which comes first. A window that leaves out a
column has a range too. -/
theorem range_extremes_mixedZeros :
    mixedZeros.Reachable ∧ numbersOnly.Reachable ∧
      (∀ other, IsRange (fun i => mixedZeros.get (.linear i)) other ↔
        other = some (single 0x80000000, single 0x40a00000)) ∧
      mixedZeros.asView.range = numbersOnly.asView.range ∧ ∃ window range,
        mixedZeros.asView.subViews [⟨⟨1, 0⟩, ⟨3, 2⟩⟩] = .ok window ∧
        ∀ other, IsRange window.getLinear other ↔ other = range := by
  have made : mixedZeros.Reachable := Image.reachable_ofArray 4 2 _ rfl
  have madeNumbers : numbersOnly.Reachable := Image.reachable_ofArray 3 2 _ rfl
  obtain ⟨window, chain⟩ : ∃ window,
      mixedZeros.asView.subViews [⟨⟨1, 0⟩, ⟨3, 2⟩⟩] = .ok window := ⟨_, rfl⟩
  obtain ⟨-, -, views, images, same⟩ := range_extremes .grayFloat
  obtain ⟨range, -, windowRange⟩ := views window ⟨mixedZeros, made, _, chain⟩
  obtain ⟨ends, found, imageRange⟩ := images mixedZeros made
  have ends_eq : ends = some (single 0x80000000, single 0x40a00000) := by
    rw [mixedZeros.range_asView made.wellFormed, mixedZeros, Image.toList_ofArray,
      Except.ok.injEq] at found
    rw [← found]
    decide +kernel
  obtain ⟨values, all, mixed⟩ := mixedZeros.values_asView made.wellFormed
  obtain ⟨others, allOthers, numbers⟩ := numbersOnly.values_asView madeNumbers.wellFormed
  refine ⟨made, madeNumbers, ends_eq ▸ imageRange, ?_, window, range, chain, windowRange⟩
  apply same _ _ values others all allOthers
  rw [mixed, numbers, mixedZeros, numbersOnly, Image.toList_ofArray, Image.toList_ofArray]
  decide +kernel

end View

end Raster
