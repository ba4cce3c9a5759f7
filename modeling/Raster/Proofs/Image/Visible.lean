import Raster.Image.Equality
import Raster.Proofs.Expr.Fusion
import Raster.Proofs.Storage.Visible
import Raster.Proofs.View.Compact

/-!
# Images that cannot be told apart

Images of one size with the same pixels have the same kind of storage, but their hidden slots may
differ. No edit brings such a difference to light, except for a change of size without a fill that
lets an inline image show more of its slots. Evaluation and conversion change the size without a fill
too, and then write every pixel that there is.
-/

namespace Raster

namespace Image

section

variable {α : Type}

/-- The image would show slots that it hides, if it took on this size and got no fill. -/
def Exposes (img : Image α) (size : Size) : Prop :=
  img.isInline = true ∧ img.pixelCount < size.area ∧ size.area ≤ inlineCapacity

namespace SameVisible

variable {a b : Image α}

theorem refl (img : Image α) : img.SameVisible img :=
  ⟨rfl, rfl, rfl⟩

theorem width_eq (same : a.SameVisible b) : a.width = b.width :=
  congrArg Size.width same.size_eq

theorem height_eq (same : a.SameVisible b) : a.height = b.height :=
  congrArg Size.height same.size_eq

theorem storage (same : a.SameVisible b) : a.storage.Alike b.storage where
  kind_eq := (Storage.isInline_eq_iff _ _).mp same.isInline_eq
  toList_eq := same.toList_eq

theorem of_storage (size : a.size = b.size) (alike : a.storage.Alike b.storage) :
    a.SameVisible b where
  size_eq := size
  isInline_eq := (Storage.isInline_eq_iff _ _).mpr alike.kind_eq
  toList_eq := alike.toList_eq

/-- Well-formed images of one size show the same if they do at each column and row. -/
theorem of_cells (wfA : a.WellFormed) (wfB : b.WellFormed) (size : a.size = b.size)
    (pixels : ∀ x y, x < b.width → y < b.height →
      ∃ p, a.get (.cell x y) = .ok p ∧ b.get (.cell x y) = .ok p) : a.SameVisible b := by
  have width : a.width = b.width := congrArg Size.width size
  have height : a.height = b.height := congrArg Size.height size
  apply wfA.sameVisible wfB size
  intro i inside
  -- The linear index is that of one column and row.
  have column : i % b.width.toNat < b.width.toNat := RowMajor.mod_lt i _ _ inside
  have row : i / b.width.toNat < b.height.toNat := RowMajor.div_lt i _ _ inside
  have index : i / b.width.toNat * b.width.toNat + i % b.width.toNat = i := Nat.div_add_mod' i _
  have smallColumn := Coordinate.ofNat_lt _ b.width column
  have smallRow := Coordinate.ofNat_lt _ b.height row
  obtain ⟨p, here, there⟩ := pixels _ _ smallColumn smallRow
  rw [get_cell_eq_ok_iff a _ _ p (width ▸ smallColumn) (height ▸ smallRow), width,
    Coordinate.toNat_ofNat _ _ column, Coordinate.toNat_ofNat _ _ row, index] at here
  rw [get_cell_eq_ok_iff b _ _ p smallColumn smallRow,
    Coordinate.toNat_ofNat _ _ column, Coordinate.toNat_ofNat _ _ row, index] at there
  rw [here, there]

theorem data_compact_eq (same : a.SameVisible b) : a.data.compact = b.data.compact :=
  (Slice.compact_eq_iff _ _).mpr same.toList_eq

/-- Views of the whole images show the same. -/
theorem asView_compact_eq (same : a.SameVisible b) : a.asView.compact = b.asView.compact := by
  unfold asView View.compact
  rw [same.data_compact_eq, same.width_eq, same.height_eq]

theorem toArray_eq (same : a.SameVisible b) : a.data.toArray = b.data.toArray :=
  Array.toList_inj.mp same.toList_eq

/-! ### Change of size -/

theorem told_eq [Inhabited α] (same : a.SameVisible b) (size : Size) (fill : Option α) :
    (a.resize size fill).2 = (b.resize size fill).2 := by
  unfold resize
  rw [same.size_eq]
  split
  · rfl
  · exact same.storage.told_eq size.area fill

theorem resize [Inhabited α] (same : a.SameVisible b) (size : Size) (fill : Option α)
    (hidden : fill = none → ¬a.Exposes size) :
    (a.resize size fill).1.SameVisible (b.resize size fill).1 := by
  unfold Image.resize
  rw [same.size_eq]
  split
  · exact same
  · refine of_storage ?_ ?_
    · rfl
    · -- On the heap, and where the kind changes, no slot was hidden that could show.
      apply same.storage.setLength size.area fill
      intro noFill onInline inside
      apply Nat.le_of_not_lt
      intro longer
      exact hidden noFill ⟨a.storage.isInline_iff.mpr onInline, longer, inside⟩

/-- A change of size with a fill leaves nothing of the old pixels to be seen. -/
theorem resize_some [Inhabited α] {img : Image α} (wf : img.WellFormed) (size : Size) (value : α)
    (changed : size ≠ img.size) :
    (filled size.width size.height value).SameVisible (img.resize size (some value)).1 := by
  apply (wellFormed_filled _ _ value).sameVisible (wellFormed_resize wf size (some value))
  · exact (img.size_resize size (some value)).symm
  · intro i _
    have pixels : (filled size.width size.height value).storage.toList =
        (img.resize size (some value)).1.storage.toList := by
      simp only [Image.resize, if_neg changed]
      rw [Storage.toList_setLength_some]
      exact Storage.toList_filled size.area value
    exact congrArg (·[i]?) pixels

/-! ### Writing -/

theorem indexOf_eq (same : a.SameVisible b) (position : Position) :
    a.indexOf position = b.indexOf position := by
  unfold indexOf
  rw [same.width_eq, same.height_eq]

theorem lineStart_eq (same : a.SameVisible b) (y : UInt32) : a.lineStart y = b.lineStart y := by
  unfold lineStart
  rw [same.width_eq, same.height_eq]

theorem set (same : a.SameVisible b) (position : Position) (value : α) :
    Agree SameVisible (a.set position value) (b.set position value) := by
  unfold Image.set
  rw [same.indexOf_eq]
  cases b.indexOf position with
  | error fault => exact .error fault
  | ok i => exact (same.storage.set i value).bind fun _ _ alike => .ok (of_storage same.size_eq alike)

theorem apply (same : a.SameVisible b) (rule : Nat → α → α) :
    (a.apply rule).SameVisible (b.apply rule) :=
  of_storage same.size_eq (same.storage.modify rule)

theorem applyLine (same : a.SameVisible b) (y : UInt32) (rule : Nat → α → α) :
    Agree SameVisible (a.applyLine y rule) (b.applyLine y rule) := by
  unfold Image.applyLine
  rw [same.lineStart_eq, same.width_eq]
  cases b.lineStart y with
  | error refusal => exact .error refusal
  | ok start => exact .ok (same.apply _)

theorem setInLine (same : a.SameVisible b) (y : UInt32) (x : Nat) (value : α) :
    Agree SameVisible (a.setInLine y x value) (b.setInLine y x value) := by
  unfold Image.setInLine
  rw [same.lineStart_eq, same.width_eq]
  cases b.lineStart y with
  | error refusal => exact .error _
  | ok start =>
    by_cases inside : x < b.width.toNat
    · simp only [if_pos inside]
      exact (same.set (.linear (start + x)) value).mapError Failure.fault
    · simp only [if_neg inside]
      exact .error _

/-- A rule that reads pixels only writes the same to both images, and faults alike. -/
theorem writeEach (same : a.SameVisible b) (rule : Slice α → Nat → Except Fault α)
    (reads : ∀ s t : Slice α, s.compact = t.compact → ∀ i, rule s i = rule t i) :
    (a.writeEach rule).1.SameVisible (b.writeEach rule).1 ∧
      (a.writeEach rule).2 = (b.writeEach rule).2 := by
  obtain ⟨alike, faults⟩ := same.storage.writeEach (fun s i => rule s.items i) fun u v alike i =>
    reads u.items v.items ((Slice.compact_eq_iff _ _).mpr alike.toList_eq) i
  exact ⟨of_storage same.size_eq alike, faults⟩

/-! ### Channels -/

theorem withPixels_eq {β : Type} [Inhabited β] (same : a.SameVisible b) (pixels : Array β) :
    a.withPixels pixels = b.withPixels pixels := by
  unfold withPixels
  rw [same.width_eq, same.height_eq]

theorem channel_eq {β : Type} [Inhabited β] (same : a.SameVisible b) (select : α → β) :
    a.channel select = b.channel select := by
  unfold channel
  rw [same.withPixels_eq, same.toArray_eq]

theorem splitComplex_eq {a b : Image Complex} (same : a.SameVisible b) :
    a.splitComplex = b.splitComplex := by
  simp only [splitComplex, same.channel_eq]

theorem splitRgba_eq {bits : Nat} {a b : Image (Rgba bits)} (same : a.SameVisible b) :
    a.splitRgba = b.splitRgba := by
  simp only [splitRgba, same.channel_eq]

theorem joinComplex_eq {re im otherRe otherIm : Image Single} (reals : re.SameVisible otherRe)
    (imaginaries : im.SameVisible otherIm) : joinComplex re im = joinComplex otherRe otherIm := by
  unfold joinComplex requireSameSize
  rw [reals.size_eq, imaginaries.size_eq, reals.withPixels_eq, reals.toArray_eq,
    imaginaries.toArray_eq]

theorem grayscale_eq {r g b otherR otherG otherB : Image α} (reds : r.SameVisible otherR)
    (greens : g.SameVisible otherG) (blues : b.SameVisible otherB) (toDouble : α → Double) :
    grayscale toDouble r g b = grayscale toDouble otherR otherG otherB := by
  unfold grayscale requireSameSize
  simp only [reds.size_eq, greens.size_eq, blues.size_eq, reds.withPixels_eq, reds.toArray_eq,
    greens.toArray_eq, blues.toArray_eq]

end SameVisible

end

/-! ### Evaluation and conversion -/

variable {f g : PixelFormat} {a b : Image (Pixel f)}

/-- Equality compares sizes and pixels, whatever the images are made of otherwise. -/
theorem beq_iff (a b : Image (Pixel f)) :
    (a == b) = true ↔ a.size = b.size ∧ a.data.toList = b.data.toList := by
  have words : a.words = b.words ↔ a.data.toList = b.data.toList :=
    List.map_inj_right fun _ _ => Pixel.words_injective
  rw [← words]
  change (a.width == b.width && a.height == b.height && a.words == b.words) = true ↔ _
  simp [size]

/-- Size and pixels are all that can be told of well-formed images. -/
theorem sameVisible_iff_beq (wfA : a.WellFormed) (wfB : b.WellFormed) :
    (a == b) = true ↔ a.SameVisible b := by
  rw [beq_iff]
  constructor
  · rintro ⟨size, pixels⟩
    exact wfA.sameVisible wfB size fun i _ => by rw [pixels]
  · intro same
    exact ⟨same.size_eq, same.toList_eq⟩

/-- The exception is needed: any larger size that stays inline tells some equal images apart if it
gives no fill, since the slots that one of them hides hold another pixel. -/
theorem exists_exposed (small large : Size) (larger : small.area < large.area)
    (inside : large.area ≤ inlineCapacity) (p q : Pixel f) (different : p ≠ q) :
    ∃ a b : Image (Pixel f), a.WellFormed ∧ b.WellFormed ∧ a.size = small ∧ (a == b) = true ∧
      ¬((a.resize large none).1 == (b.resize large none).1) = true := by
  have smaller : small.area ≤ inlineCapacity := Nat.le_trans (Nat.le_of_lt larger) inside
  have changed : large ≠ small := fun same => Nat.ne_of_gt larger (congrArg Size.area same)
  let plain : Image (Pixel f) := filled small.width small.height p
  let full : Image (Pixel f) := filled large.width large.height q
  let layered : Image (Pixel f) := (full.resize small (some p)).1
  have plainWf : plain.WellFormed := wellFormed_filled _ _ p
  have layeredWf : layered.WellFormed := wellFormed_resize (wellFormed_filled _ _ q) small (some p)
  have plainShows : (plain.resize large none).1.storage.toList[small.area]? = some p := by
    simp [plain, resize, filled, size, changed, Storage.filled, smaller, Storage.setLength, inside,
      Storage.toList_inline, larger]
  have layeredShows : (layered.resize large none).1.storage.toList[small.area]? = some q := by
    simp [layered, full, resize, filled, size, changed, changed.symm, Storage.filled, smaller,
      Storage.setLength, inside, Storage.toList_inline, larger]
  refine ⟨plain, layered, plainWf, layeredWf, rfl, ?_, fun equal => ?_⟩
  · apply (sameVisible_iff_beq plainWf layeredWf).mpr
    exact SameVisible.resize_some (wellFormed_filled _ _ q) small p changed.symm
  · have same := (sameVisible_iff_beq (wellFormed_resize plainWf large none)
      (wellFormed_resize layeredWf large none)).mp equal
    have shown : some p = some q := by
      rw [← plainShows, ← layeredShows]
      exact congrArg (·[small.area]?) same.toList_eq
    exact different (Option.some.inj shown)

theorem records_assign (img : Image (Pixel f)) (e : Expr ViewLeaf f) (size? : Option Size)
    (agreed : e.viewSize? = .ok size?) :
    (img.assign e).records =
      .evaluation f img.size :: Reselection.records (img.resize (size?.getD img.size) none).2 := by
  unfold assign
  rw [agreed]

theorem records_assignConverted (img : Image (Pixel f)) (conversion : Conversion g.kind f.kind)
    (source : View (Pixel g)) :
    (img.assignConverted conversion source).records =
      Reselection.records (img.resize source.size none).2 := by
  unfold assignConverted
  dsimp only
  split <;> rfl

/-- A conversion writes every pixel, with the converted pixel of the source. -/
theorem assignConverted_writes (img : Image (Pixel f)) (wf : img.WellFormed)
    (conversion : Conversion g.kind f.kind) (source : View (Pixel g)) (sourceWf : source.WellFormed) :
    (img.assignConverted conversion source).failure = none ∧
      (img.assignConverted conversion source).state.size = source.size ∧
      ∀ i < source.size.area, ∃ p, source.read i = .ok p ∧
        (img.assignConverted conversion source).state.data.toList[i]? =
          some (conversion.apply p) := by
  obtain ⟨values, all, count, reads⟩ := source.values_eq_ok sourceWf
  have length := (wellFormed_resize wf source.size none).length_data
  rw [size_resize] at length
  unfold assignConverted
  rw [all]
  refine ⟨rfl, img.size_resize source.size none, fun i inside => ?_⟩
  -- There are as many values as pixels, so none of the exposed slots stays as it was.
  obtain ⟨p, found⟩ : ∃ p, values[i]? = some p := ⟨_, Array.getElem?_eq_getElem (count ▸ inside)⟩
  refine ⟨p, (reads i p).mp found, ?_⟩
  exact getElem?_overwrite_map _ values _ (count.trans length.symm) i p found

namespace SameVisible

theorem assign (same : a.SameVisible b) (wfA : a.WellFormed) (wfB : b.WellFormed)
    (e : Expr ViewLeaf f) (sources : ∀ l ∈ e.leaves, l.2.WellFormed) :
    (a.assign e).Alike SameVisible (b.assign e) := by
  cases computed : e.viewSize? with
  | error refusal =>
    rw [a.assign_of_refused e refusal computed, b.assign_of_refused e refusal computed]
    exact Outcome.alike_failed same _
  | ok size? =>
    obtain ⟨successA, sizeA, writtenA⟩ := a.assign_writes wfA e size? computed sources
    obtain ⟨successB, sizeB, writtenB⟩ := b.assign_writes wfB e size? computed sources
    rw [same.size_eq] at sizeA writtenA
    refine ⟨?_, ?_, successA.trans successB.symm⟩
    · apply (wellFormed_assign wfA e).sameVisible (wellFormed_assign wfB e)
      · exact sizeA.trans sizeB.symm
      · -- The slots that the change of size exposes are all written.
        intro i inside
        rw [sizeB] at inside
        obtain ⟨p, reads, here⟩ := writtenA i inside
        obtain ⟨q, readsAgain, there⟩ := writtenB i inside
        rw [here, there, Except.ok.inj (reads.symm.trans readsAgain)]
    · rw [a.records_assign e size? computed, b.records_assign e size? computed, same.size_eq,
        same.told_eq]

theorem update (same : a.SameVisible b) (e : Expr (WithSelf f ViewLeaf) f) :
    (a.update e).Alike SameVisible (b.update e) := by
  unfold Image.update
  rw [same.size_eq]
  cases checkSize b.size e with
  | error refusal => exact Outcome.alike_failed same _
  | ok _ =>
    have reads (s t : Slice (Pixel f)) (pixels : s.compact = t.compact) (i : Nat) :
        e.eval (fun source i => source.read s i) i =
          e.eval (fun source i => source.read t i) i := by
      apply Expr.eval_congr
      rintro ⟨g, source⟩ -
      cases source with
      | self =>
        change s.read i = t.read i
        rw [← s.read_compact, pixels, t.read_compact]
      | other v => rfl
    obtain ⟨pixels, faults⟩ := same.writeEach _ reads
    exact ⟨pixels, rfl, congrArg (Option.map Failure.fault) faults⟩

theorem assignConverted (same : a.SameVisible b) (wfA : a.WellFormed) (wfB : b.WellFormed)
    (conversion : Conversion g.kind f.kind) (source : View (Pixel g)) (sourceWf : source.WellFormed) :
    (a.assignConverted conversion source).Alike SameVisible
      (b.assignConverted conversion source) := by
  obtain ⟨successA, sizeA, writtenA⟩ := a.assignConverted_writes wfA conversion source sourceWf
  obtain ⟨successB, sizeB, writtenB⟩ := b.assignConverted_writes wfB conversion source sourceWf
  refine ⟨?_, ?_, successA.trans successB.symm⟩
  · apply (wellFormed_assignConverted wfA conversion source).sameVisible
      (wellFormed_assignConverted wfB conversion source)
    · exact sizeA.trans sizeB.symm
    · intro i inside
      rw [sizeB] at inside
      obtain ⟨p, reads, here⟩ := writtenA i inside
      obtain ⟨q, readsAgain, there⟩ := writtenB i inside
      rw [here, there, Except.ok.inj (reads.symm.trans readsAgain)]
  · rw [records_assignConverted, records_assignConverted, same.told_eq]

end SameVisible

end Image

/-! ### Edits -/

namespace Edit

open Image

variable {Leaf : PixelFormat → Type} {f : PixelFormat}

/-- The edit is a change of size that shows slots which the image hides. -/
def Exposes (img : Image (Pixel f)) : Edit Leaf f → Prop
  | resize size none => img.Exposes size
  | _ => False

/-- The views whose pixels an edit puts in the place of all old ones, at a size of their own. -/
def replacements : Edit Leaf f → List ((g : PixelFormat) × Leaf g)
  | assign e => e.leaves
  | assignConverted _ source => [⟨_, source⟩]
  | _ => []

theorem run_alike {a b : Image (Pixel f)} (same : a.SameVisible b) (wfA : a.WellFormed)
    (wfB : b.WellFormed) (change : Edit ViewLeaf f)
    (sources : ∀ l ∈ change.replacements, l.2.WellFormed) (hidden : ¬change.Exposes a) :
    (change.run a).Alike SameVisible (change.run b) := by
  cases change with
  | assign e => exact same.assign wfA wfB e sources
  | update e => exact same.update e
  | assignConverted conversion source =>
    exact same.assignConverted wfA wfB conversion source (sources _ (.head _))
  | resize size value =>
    refine ⟨same.resize size value ?_, congrArg Reselection.records (same.told_eq size value), rfl⟩
    rintro rfl
    exact hidden
  | set position value =>
    exact Outcome.alike_ofExcept same ((same.set position value).mapError _)
  | setInLine y x value => exact Outcome.alike_ofExcept same (same.setInLine y x value)
  | applyLine y rule => exact Outcome.alike_ofExcept same ((same.applyLine y rule).mapError _)
  | fill value => exact Outcome.alike_done (same.apply _)
  | apply rule => exact Outcome.alike_done (same.apply rule)

end Edit

end Raster
