import Raster.Proofs.Expr.Leaves
import Raster.Proofs.Image.Change
import Raster.Proofs.View.Window

/-!
# Evaluation without coordinates

A tree means a pixel at each column and row. Evaluation never forms a column or a row: it walks
through the linear indices of the image that it writes, and each view finds its own pixel there.
Both give the same pixels, because all views of a tree have one size, and a view finds at a
row-major index of that size what it shows at the column and row.
-/

namespace Raster

namespace Expr

variable {f : PixelFormat}

/-- What a tree means at column `x` of row `y`: a view its own pixel there, a constant itself, an
operator and a conversion what they make of the pixels of their operands. -/
def valueAt (x y : UInt32) : {f : PixelFormat} → Expr ViewLeaf f → Except Fault (Pixel f)
  | _, const value => .ok value
  | _, leaf source => source.get x y
  | _, binary op left right => do
    let p ← left.valueAt x y
    let q ← right.valueAt x y
    return op.apply p q
  | _, cast conversion inner => do
    let p ← inner.valueAt x y
    return conversion.apply p

/-- The tree is read at a row-major index as it is meant at the column and row. -/
theorem read_eq_valueAt (e : Expr ViewLeaf f) (size : Size)
    (sources : ∀ l ∈ e.leaves, l.2.WellFormed) (sizes : ∀ l ∈ e.leaves, l.2.size = size)
    (x y : UInt32) (column : x < size.width) (row : y < size.height) :
    e.read (y.toNat * size.width.toNat + x.toNat) = e.valueAt x y := by
  -- A node hands its own index to both operands, so only the leaves need the index explained.
  induction e with
  | const value => rfl
  | leaf source =>
    have wf : source.WellFormed := sources ⟨_, source⟩ (by simp [leaves])
    obtain rfl : source.size = size := sizes ⟨_, source⟩ (by simp [leaves])
    exact source.read_index wf x y column row
  | binary op left right ihl ihr =>
    obtain ⟨sourcesLeft, sourcesRight⟩ := (forall_leaves_binary op left right _).mp sources
    obtain ⟨sizesLeft, sizesRight⟩ := (forall_leaves_binary op left right _).mp sizes
    have readLeft := ihl sourcesLeft sizesLeft
    have readRight := ihr sourcesRight sizesRight
    simp only [read] at readLeft readRight
    simp only [read, eval, valueAt, readLeft, readRight]
  | cast conversion inner ih =>
    have readInner := ih sources sizes
    simp only [read] at readInner
    simp only [read, eval, valueAt, readInner]
    rfl

theorem valueAt_of_no_leaves (e : Expr ViewLeaf f) (noLeaves : e.leaves = []) :
    ∃ value, ∀ x y, e.valueAt x y = .ok value := by
  induction e with
  | const value => exact ⟨value, fun _ _ => rfl⟩
  | leaf source => cases noLeaves
  | binary op left right ihl ihr =>
    obtain ⟨noLeft, noRight⟩ := List.append_eq_nil_iff.mp noLeaves
    obtain ⟨p, meansLeft⟩ := ihl noLeft
    obtain ⟨q, meansRight⟩ := ihr noRight
    refine ⟨op.apply p q, fun x y => ?_⟩
    simp only [valueAt, meansLeft, meansRight]
    rfl
  | cast conversion inner ih =>
    obtain ⟨p, meansInner⟩ := ih noLeaves
    refine ⟨conversion.apply p, fun x y => ?_⟩
    simp only [valueAt, meansInner]
    rfl

end Expr

namespace Image

variable {f : PixelFormat}

/-- The outcome is an image of the given size whose pixels are what the tree means. -/
structure IsImageOf (outcome : Outcome (Image (Pixel f))) (e : Expr ViewLeaf f) (size : Size) :
    Prop where
  failure_eq : outcome.failure = none
  size_eq : outcome.state.size = size
  get_cell : ∀ x y, x < size.width → y < size.height →
    ∃ p, e.valueAt x y = .ok p ∧ outcome.state.get (.cell x y) = .ok p

/-- An assignment that is not refused writes every pixel, with what the tree reads there. -/
theorem assign_writes (img : Image (Pixel f)) (wf : img.WellFormed) (e : Expr ViewLeaf f)
    (size? : Option Size) (computed : e.viewSize? = .ok size?)
    (sources : ∀ l ∈ e.leaves, l.2.WellFormed) :
    (img.assign e).failure = none ∧ (img.assign e).state.size = size?.getD img.size ∧
      ∀ i < (size?.getD img.size).area, ∃ p, e.read i = .ok p ∧
        (img.assign e).state.data.toList[i]? = some p := by
  obtain ⟨state, failure⟩ := img.assign_of_agreed e size? computed
  have length := (wellFormed_resize wf (size?.getD img.size) none).length_data
  rw [size_resize] at length
  have total (i : Nat) (inside : i < (img.resize (size?.getD img.size) none).1.data.length) :
      ∃ p, e.read i = .ok p := by
    -- An index of the resized image is one of each leaf, and well-formed leaves do not fault there.
    apply Expr.eval_total
    intro l member
    apply l.2.exists_read (sources l member)
    have size := Expr.sizeOf_eq_of_size?_eq_ok _ e size? computed img.size l member
    rwa [View.pixelCount, size, ← length]
  obtain ⟨noFault, written⟩ := writeEach_total _ e.read total
  rw [state, failure, noFault]
  refine ⟨rfl, img.size_resize (size?.getD img.size) none, fun i inside => ?_⟩
  exact written i (length ▸ inside)

theorem assign_isImageOf (img : Image (Pixel f)) (wf : img.WellFormed) (e : Expr ViewLeaf f)
    (size? : Option Size) (computed : e.viewSize? = .ok size?)
    (sources : ∀ l ∈ e.leaves, l.2.WellFormed) :
    IsImageOf (img.assign e) e (size?.getD img.size) := by
  obtain ⟨failure, size, written⟩ := img.assign_writes wf e size? computed sources
  refine ⟨failure, size, fun x y column row => ?_⟩
  -- The image and the leaves have one width, so they agree on the index of column and row.
  obtain ⟨p, reads, here⟩ := written _ (RowMajor.index_lt x.toNat y.toNat _ _ column row)
  have sizes := Expr.sizeOf_eq_of_size?_eq_ok _ e size? computed img.size
  have means := e.read_eq_valueAt _ sources sizes x y column row
  exact ⟨p, means.symm.trans reads, get_cell_of_item _ _ size x y p column row here⟩

/-- The pixels that an assignment leaves are those of the tree: none of the old ones remains. -/
theorem assign_sameVisible (img other : Image (Pixel f)) (wf : img.WellFormed)
    (otherWf : other.WellFormed) (e : Expr ViewLeaf f) (size : Size)
    (computed : e.viewSize? = .ok (some size)) (sources : ∀ l ∈ e.leaves, l.2.WellFormed) :
    (img.assign e).state.SameVisible (other.assign e).state := by
  obtain ⟨-, newSize, written⟩ := img.assign_writes wf e _ computed sources
  obtain ⟨-, otherSize, otherWritten⟩ := other.assign_writes otherWf e _ computed sources
  apply (wellFormed_assign wf e).sameVisible (wellFormed_assign otherWf e)
  · exact newSize.trans otherSize.symm
  · -- Whatever either image held at the index before, it now holds what the tree reads there.
    intro i inside
    rw [otherSize] at inside
    obtain ⟨p, reads, here⟩ := written i inside
    obtain ⟨q, readsAgain, there⟩ := otherWritten i inside
    rw [here, there, Except.ok.inj (reads.symm.trans readsAgain)]

theorem state_ofExpr_of_no_leaves (e : Expr ViewLeaf f) (computed : e.viewSize? = .ok none) :
    (ofExpr e).state = blank := by
  unfold ofExpr
  rw [(blank.assign_of_agreed e none computed).1]
  rfl

/-- Evaluation into a reachable image gives what the tree means, at the size of its views and
whatever the image was before. A tree of constants keeps the size. -/
theorem assign_eq_valueAt (img : Image (Pixel f)) (reachable : img.Reachable)
    (e : Expr ViewLeaf f) (sources : ∀ l ∈ e.leaves, View.Reachable l.2) :
    (∀ size, e.leaves ≠ [] → (∀ l ∈ e.leaves, l.2.size = size) →
        IsImageOf (img.assign e) e size ∧
          ∀ other : Image (Pixel f), other.Reachable →
            (img.assign e).state.SameVisible (other.assign e).state) ∧
      (e.leaves = [] → ∃ value, (∀ x y, e.valueAt x y = .ok value) ∧
        IsImageOf (img.assign e) e img.size ∧
        (∀ x y, x < img.width → y < img.height →
          (img.assign e).state.get (.cell x y) = .ok value) ∧
        (ofExpr e).failure = none ∧ (ofExpr e).state = blank) := by
  have wf := reachable.wellFormed
  have sourcesWf (l) (member : l ∈ e.leaves) : l.2.WellFormed := (sources l member).wellFormed
  constructor
  · intro size hasLeaves sizes
    have computed := (Expr.size?_eq_some_iff (fun v => v.size) e size).mpr ⟨hasLeaves, sizes⟩
    refine ⟨img.assign_isImageOf wf e (some size) computed sourcesWf, ?_⟩
    intro other otherReachable
    exact img.assign_sameVisible other wf otherReachable.wellFormed e size computed sourcesWf
  · intro noLeaves
    have computed := (Expr.size?_eq_none_iff (fun v => v.size) e).mpr noLeaves
    obtain ⟨value, meant⟩ := e.valueAt_of_no_leaves noLeaves
    have result := img.assign_isImageOf wf e none computed sourcesWf
    have fresh := blank.assign_isImageOf wellFormed_blank e none computed sourcesWf
    refine ⟨value, meant, result, fun x y column row => ?_, fresh.failure_eq,
      state_ofExpr_of_no_leaves e computed⟩
    obtain ⟨p, means, found⟩ := result.get_cell x y column row
    rwa [← Except.ok.inj ((meant x y).symm.trans means)] at found

/-- The difference of two windows, taken in a wider format with a constant added. -/
def shiftedDifference (near far : View (Pixel .gray8)) : Expr ViewLeaf .gray8 :=
  let widen : Conversion PixelFormat.gray8.kind PixelFormat.gray16.kind := .number _ _
  let narrow : Conversion PixelFormat.gray16.kind PixelFormat.gray8.kind := .number _ _
  .cast narrow (.binary .plus (.cast widen (.binary .minus (.leaf far) (.leaf near)))
    (.const (Level.ofNat 300 : Level 16)))

/-- A window and one that is nested, evaluated into a larger image, and a constant. -/
theorem assign_eq_valueAt_shiftedDifference :
    ramp.Reachable ∧ ∃ near far, ramp.asView.subViews [⟨⟨1, 0⟩, ⟨2, 2⟩⟩] = .ok near ∧
      ramp.asView.subViews [⟨⟨1, 1⟩, ⟨4, 3⟩⟩, ⟨⟨2, 1⟩, ⟨2, 2⟩⟩] = .ok far ∧
      IsImageOf (ramp.assign (shiftedDifference near far)) (shiftedDifference near far) ⟨2, 2⟩ ∧
      IsImageOf (ramp.assign (.const (Level.ofNat 7 : Level 8)))
        (.const (Level.ofNat 7 : Level 8)) ⟨6, 4⟩ := by
  obtain ⟨near, nearChain⟩ : ∃ near, ramp.asView.subViews [⟨⟨1, 0⟩, ⟨2, 2⟩⟩] = .ok near := ⟨_, rfl⟩
  obtain ⟨far, farChain⟩ : ∃ far,
      ramp.asView.subViews [⟨⟨1, 1⟩, ⟨4, 3⟩⟩, ⟨⟨2, 1⟩, ⟨2, 2⟩⟩] = .ok far := ⟨_, rfl⟩
  have wf := ramp_reachable.wellFormed.asView
  have nearSize := (View.isWindowOf_of_subViews _ _ near wf nearChain).1
  have farSize := (View.isWindowOf_of_subViews _ _ far wf farChain).1
  have windows : (shiftedDifference near far).leaves = [⟨.gray8, far⟩, ⟨.gray8, near⟩] := rfl
  have sources : ∀ l ∈ (shiftedDifference near far).leaves, View.Reachable l.2 := by
    rw [windows, List.forall_mem_cons, List.forall_mem_singleton]
    exact ⟨⟨ramp, ramp_reachable, _, farChain⟩, ⟨ramp, ramp_reachable, _, nearChain⟩⟩
  have sizes : ∀ l ∈ (shiftedDifference near far).leaves, l.2.size = ⟨2, 2⟩ := by
    rw [windows, List.forall_mem_cons, List.forall_mem_singleton]
    exact ⟨farSize, nearSize⟩
  obtain ⟨evaluated, -⟩ :=
    (assign_eq_valueAt ramp ramp_reachable _ sources).1 ⟨2, 2⟩ (by simp [windows]) sizes
  obtain ⟨_, -, constant, -⟩ := (assign_eq_valueAt ramp ramp_reachable
    (.const (Level.ofNat 7 : Level 8)) (by simp [Expr.leaves])).2 rfl
  exact ⟨ramp_reachable, near, far, nearChain, farChain, evaluated, constant⟩

end Image

end Raster
