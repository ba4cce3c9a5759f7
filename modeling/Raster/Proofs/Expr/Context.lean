import Raster.Proofs.Expr.Fusion

/-!
# Subtrees kept in images

A tree with an open place is a context. What a filled context means and what size it has depend on
the filling only through its size and its reads. The image of a subtree has the size of the subtree,
and at every index what the subtree reads there, so it makes no difference whether a subtree is
evaluated along with the tree or beforehand, into an image of its own. Which sizes are refused, and
with which error, stays the same too.
-/

namespace Raster

/-! ### Contexts -/

/-- A tree of format `f` with an open place for one of format `g`. -/
inductive Expr.Context (Leaf : PixelFormat → Type) (g : PixelFormat) : PixelFormat → Type where
  | hole : Context Leaf g g
  | inLeft {f : PixelFormat} (op : Operator f) (inner : Context Leaf g f) (right : Expr Leaf f) :
    Context Leaf g f
  | inRight {f : PixelFormat} (op : Operator f) (left : Expr Leaf f) (inner : Context Leaf g f) :
    Context Leaf g f
  | inCast {h f : PixelFormat} (conversion : Conversion h.kind f.kind) (inner : Context Leaf g h) :
    Context Leaf g f

namespace Expr.Context

variable {Leaf : PixelFormat → Type} {f g : PixelFormat}

/-- The tree with the given subtree in the open place. -/
def fill (s : Expr Leaf g) : {f : PixelFormat} → Context Leaf g f → Expr Leaf f
  | _, hole => s
  | _, inLeft op inner right => .binary op (inner.fill s) right
  | _, inRight op left inner => .binary op left (inner.fill s)
  | _, inCast conversion inner => .cast conversion (inner.fill s)

theorem mem_leaves_fill (c : Context Leaf g f) (s : Expr Leaf g) (l : (h : PixelFormat) × Leaf h)
    (member : l ∈ s.leaves) : l ∈ (c.fill s).leaves := by
  induction c with
  | hole => exact member
  | inLeft op inner right ih => exact List.mem_append_left _ ih
  | inRight op left inner ih => exact List.mem_append_right _ ih
  | inCast conversion inner ih => exact ih

/-- Operands are asked for their sizes in order, so that the first mismatch stays the first. -/
theorem size?_fill_congr (sizeOf : {h : PixelFormat} → Leaf h → Size) (c : Context Leaf g f)
    (s t : Expr Leaf g) (same : s.size? sizeOf = t.size? sizeOf) :
    (c.fill s).size? sizeOf = (c.fill t).size? sizeOf := by
  induction c with
  | hole => exact same
  | inLeft op inner right ih => simp only [fill, Expr.size?, ih]
  | inRight op left inner ih => simp only [fill, Expr.size?, ih]
  | inCast conversion inner ih => exact ih

theorem eval_fill_congr (read : {h : PixelFormat} → Leaf h → Nat → Except Fault (Pixel h)) (i : Nat)
    (c : Context Leaf g f) (s t : Expr Leaf g) (same : s.eval read i = t.eval read i) :
    (c.fill s).eval read i = (c.fill t).eval read i := by
  induction c with
  | hole => exact same
  | inLeft op inner right ih => simp only [fill, Expr.eval, ih]
  | inRight op left inner ih => simp only [fill, Expr.eval, ih]
  | inCast conversion inner ih =>
    simp only [fill, Expr.eval, ih]
    rfl

end Expr.Context

/-! ### Evaluation in a context -/

namespace Image

variable {f g : PixelFormat}

/-- Subtrees of one size that read the same wherever all views of the first can be read are as good
as each other in every tree. -/
theorem assign_fill_congr (img : Image (Pixel f)) (wf : img.WellFormed)
    (c : Expr.Context ViewLeaf g f) (s t : Expr ViewLeaf g) (sizes : s.viewSize? = t.viewSize?)
    (reads : ∀ i, (∀ l ∈ s.leaves, i < l.2.pixelCount) → s.read i = t.read i) :
    img.assign (c.fill s) = img.assign (c.fill t) := by
  have wholeSizes : (c.fill s).viewSize? = (c.fill t).viewSize? :=
    c.size?_fill_congr View.size s t sizes
  unfold assign
  rw [← wholeSizes]
  cases computed : (c.fill s).viewSize? with
  | error refusal => rfl
  | ok size? =>
    have length := (wellFormed_resize wf (size?.getD img.size) none).length_data
    rw [size_resize] at length
    have loops : ((img.resize (size?.getD img.size) none).1.writeEach fun _ i => (c.fill s).read i) =
        (img.resize (size?.getD img.size) none).1.writeEach fun _ i => (c.fill t).read i := by
      apply writeEach_congr
      intro _ i inside _
      -- The tree has a size, so the views of the subtree have that size as well.
      apply c.eval_fill_congr
      apply reads
      intro l member
      have size := Expr.sizeOf_eq_of_size?_eq_ok _ _ size? computed img.size l
        (c.mem_leaves_fill s l member)
      rwa [View.pixelCount, size, ← length]
    simp only [loops]

/-- The image of a subtree reads, as a leaf, what the subtree reads. -/
theorem read_asView_ofExpr (s : Expr ViewLeaf g) (size : Size) (computed : s.viewSize? = .ok (some size))
    (sources : ∀ l ∈ s.leaves, l.2.WellFormed) (i : Nat) (inside : i < size.area) :
    (ofExpr s).state.asView.read i = s.read i := by
  obtain ⟨-, -, written⟩ := blank.assign_writes wellFormed_blank s (some size) computed sources
  obtain ⟨p, reads, here⟩ := written i inside
  have gapless : (ofExpr s).state.asView.read i = (ofExpr s).state.data.read i := if_pos rfl
  rw [gapless, reads, Slice.read_eq_ok_iff, Slice.get?_eq_toList]
  exact here

/-- Evaluating a subtree beforehand changes nothing: the tree has the same size, or is refused for
the same mismatch, and the same image. A subtree of constants may be replaced by its value. -/
theorem ofExpr_fill_ofExpr (c : Expr.Context ViewLeaf g f) (s : Expr ViewLeaf g)
    (sources : ∀ l ∈ s.leaves, View.Reachable l.2) :
    (∀ size, s.leaves ≠ [] → (∀ l ∈ s.leaves, l.2.size = size) →
        (ofExpr s).failure = none ∧
          (c.fill (.leaf (ofExpr s).state.asView)).viewSize? = (c.fill s).viewSize? ∧
          ofExpr (c.fill (.leaf (ofExpr s).state.asView)) = ofExpr (c.fill s)) ∧
      (s.leaves = [] → ∃ value, (∀ i, s.read i = .ok value) ∧
        (c.fill (.const value)).viewSize? = (c.fill s).viewSize? ∧
        ofExpr (c.fill (.const value)) = ofExpr (c.fill s)) := by
  have sourcesWf : ∀ l ∈ s.leaves, l.2.WellFormed := fun l member => (sources l member).wellFormed
  constructor
  · intro size views agree
    have computed : s.viewSize? = .ok (some size) :=
      (Expr.size?_eq_some_iff _ s size).mpr ⟨views, agree⟩
    obtain ⟨failure, imageSize, -⟩ :=
      blank.assign_writes wellFormed_blank s (some size) computed sourcesWf
    have leafSize : s.viewSize? = (Expr.leaf (ofExpr s).state.asView).viewSize? :=
      computed.trans (congrArg (Except.ok ∘ some) imageSize.symm)
    refine ⟨failure, (c.size?_fill_congr _ s _ leafSize).symm, ?_⟩
    refine (assign_fill_congr blank wellFormed_blank c s _ leafSize fun i inside => ?_).symm
    obtain ⟨l, member⟩ := List.exists_mem_of_ne_nil _ views
    have below : i < size.area := agree l member ▸ inside l member
    exact (read_asView_ofExpr s size computed sourcesWf i below).symm
  · intro noLeaves
    obtain ⟨value, evaluates⟩ := s.eval_of_no_leaves noLeaves
    have reads (i : Nat) : s.read i = .ok value := evaluates _ i
    have noSize : s.viewSize? = (Expr.const value : Expr ViewLeaf g).viewSize? :=
      (Expr.size?_eq_none_iff _ s).mpr noLeaves
    refine ⟨value, reads, (c.size?_fill_congr _ s _ noSize).symm, ?_⟩
    exact (assign_fill_congr blank wellFormed_blank c s _ noSize fun i _ => reads i).symm

/-- What the shifted difference does to the difference. -/
def shift : Expr.Context ViewLeaf .gray8 .gray8 :=
  let widen : Conversion PixelFormat.gray8.kind PixelFormat.gray16.kind := .number _ _
  let narrow : Conversion PixelFormat.gray16.kind PixelFormat.gray8.kind := .number _ _
  .inCast narrow (.inLeft .plus (.inCast widen .hole) (.const (Level.ofNat 300 : Level 16)))

/-- The difference of two windows and a sum of constants, both shifted. -/
theorem ofExpr_fill_ofExpr_shift :
    ramp.Reachable ∧ ∃ near far : View (Pixel .gray8), near.Reachable ∧ far.Reachable ∧
      let difference : Expr ViewLeaf .gray8 := .binary .minus (.leaf far) (.leaf near)
      let sum : Expr ViewLeaf .gray8 :=
        .binary .plus (.const (Level.ofNat 200 : Level 8)) (.const (Level.ofNat 100 : Level 8))
      shift.fill difference = shiftedDifference near far ∧
        (ofExpr difference).failure = none ∧
        ofExpr (shift.fill (.leaf (ofExpr difference).state.asView)) =
          ofExpr (shiftedDifference near far) ∧
        ∃ value, sum.read 0 = .ok value ∧
          ofExpr (shift.fill (.const value)) = ofExpr (shift.fill sum) := by
  obtain ⟨near, nearChain⟩ : ∃ near, ramp.asView.subViews [⟨⟨1, 0⟩, ⟨2, 2⟩⟩] = .ok near := ⟨_, rfl⟩
  obtain ⟨far, farChain⟩ : ∃ far,
      ramp.asView.subViews [⟨⟨1, 1⟩, ⟨4, 3⟩⟩, ⟨⟨2, 1⟩, ⟨2, 2⟩⟩] = .ok far := ⟨_, rfl⟩
  have wf := ramp_reachable.wellFormed.asView
  have nearReachable : near.Reachable := ⟨ramp, ramp_reachable, _, nearChain⟩
  have farReachable : far.Reachable := ⟨ramp, ramp_reachable, _, farChain⟩
  have nearSize : near.size = ⟨2, 2⟩ := (View.isWindowOf_of_subViews _ _ near wf nearChain).1
  have farSize : far.size = ⟨2, 2⟩ := (View.isWindowOf_of_subViews _ _ far wf farChain).1
  refine ⟨ramp_reachable, near, far, nearReachable, farReachable, ?_⟩
  intro difference sum
  have sources : ∀ l ∈ difference.leaves, View.Reachable l.2 := by
    simpa [difference, Expr.leaves] using And.intro farReachable nearReachable
  have sizes : ∀ l ∈ difference.leaves, l.2.size = ⟨2, 2⟩ := by
    simpa [difference, Expr.leaves] using And.intro farSize nearSize
  obtain ⟨failure, -, image⟩ :=
    (ofExpr_fill_ofExpr shift difference sources).1 ⟨2, 2⟩ (by simp [difference, Expr.leaves]) sizes
  obtain ⟨value, reads, -, constant⟩ :=
    (ofExpr_fill_ofExpr shift sum (by simp [sum, Expr.leaves])).2 rfl
  exact ⟨rfl, failure, image, value, reads 0, constant⟩

end Image

end Raster
