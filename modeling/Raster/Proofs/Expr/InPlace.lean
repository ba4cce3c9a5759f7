import Raster.Proofs.Expr.Leaves
import Raster.Proofs.Image.Change
import Raster.Proofs.Image.Contents
import Raster.Proofs.Workspace.Reachable

/-!
# Evaluation into an image that the tree reads

`Image.update` writes the buffer that its tree reads. Every leaf is read at the index that is about
to be written only, and there the buffer still holds the old pixel. So the image comes out as if all
old pixels had been kept aside, and the tree had been evaluated over them. The two also refuse the
same trees, with the same error.
-/

namespace Raster

variable {f target : PixelFormat}

namespace WithSelf

/-- The leaf as a view, with a view in the place of the image itself. -/
def resolve (own : View (Pixel target)) :
    {f : PixelFormat} → WithSelf target ViewLeaf f → ViewLeaf f
  | _, self => own
  | _, other v => v

theorem size_resolve (own : View (Pixel target)) (source : WithSelf target ViewLeaf f) :
    (source.resolve own).size = source.sizeOf own.size := by
  cases source <;> rfl

end WithSelf

namespace Expr

/-- The tree that reads a view where the tree reads the image it is evaluated into. -/
def resolve (e : Expr (WithSelf target ViewLeaf) f) (own : View (Pixel target)) : Expr ViewLeaf f :=
  e.map fun source => source.resolve own

theorem viewSize?_resolve (e : Expr (WithSelf target ViewLeaf) f) (own : View (Pixel target)) :
    (e.resolve own).viewSize? = e.size? fun source => source.sizeOf own.size := by
  unfold resolve viewSize?
  rw [size?_map]
  simp only [WithSelf.size_resolve]

/-- Where the buffer still holds the old pixel, the tree reads what it reads of the old image. -/
theorem eval_of_unwritten (e : Expr (WithSelf target ViewLeaf) f) (img : Image (Pixel target))
    (pixels : Slice (Pixel target)) (i : Nat) (inside : i < img.data.length)
    (unwritten : pixels.get? i = img.data.get? i) :
    e.eval (fun source i => source.read pixels i) i = (e.resolve img.asView).read i := by
  unfold resolve read
  rw [eval_map]
  apply eval_congr
  rintro ⟨g, source⟩ -
  cases source with
  | self =>
    -- An image has no gaps between its rows: its view reads straight from the pixels.
    have gapless : img.asView.read i = img.data.read i := if_pos rfl
    simp only [WithSelf.read, WithSelf.resolve]
    rw [gapless]
    exact Slice.read_congr _ _ _ _ inside unwritten
  | other v => rfl

end Expr

namespace Image

theorem resize_self (img : Image (Pixel f)) (fill : Option (Pixel f)) :
    img.resize img.size fill = (img, none) :=
  if_pos rfl

/-- The tree reads the image itself, or no image at all, or only images of the image's size. -/
def Admits (img : Image (Pixel f)) (e : Expr (WithSelf f ViewLeaf) f) : Prop :=
  ⟨f, .self⟩ ∈ e.leaves ∨ e.leaves = [] ∨ ∀ l ∈ e.leaves, l.2.sizeOf img.size = img.size

/-- A tree that the image admits has the image's size, if it has one. -/
theorem Admits.size_eq {img : Image (Pixel f)} {e : Expr (WithSelf f ViewLeaf) f}
    (admits : img.Admits e) (size : Size)
    (computed : e.size? (fun source => source.sizeOf img.size) = .ok (some size)) :
    size = img.size := by
  obtain ⟨hasLeaves, sizes⟩ := (Expr.size?_eq_some_iff _ e size).mp computed
  -- The image is itself a leaf, there is no leaf to give a size, or every leaf has the image's.
  rcases admits with reads | noLeaves | same
  · exact (sizes _ reads).symm
  · exact absurd noLeaves hasLeaves
  · obtain ⟨l, member⟩ := List.exists_mem_of_ne_nil _ hasLeaves
    exact (sizes l member).symm.trans (same l member)

theorem Admits.getD_eq {img : Image (Pixel f)} {e : Expr (WithSelf f ViewLeaf) f}
    (admits : img.Admits e) (size? : Option Size)
    (computed : e.size? (fun source => source.sizeOf img.size) = .ok size?) :
    size?.getD img.size = img.size := by
  cases size? with
  | none =>
    -- A tree without leaves has no size, and the image keeps its own.
    rfl
  | some size => exact admits.size_eq size computed

/-- A tree that has no other size than the image leaves what it leaves when the old pixels are kept
aside. -/
theorem update_eq_assign_of_agreed (img : Image (Pixel f)) (e : Expr (WithSelf f ViewLeaf) f)
    (size? : Option Size)
    (computed : e.size? (fun source => source.sizeOf img.size) = .ok size?)
    (same : size?.getD img.size = img.size) :
    (img.update e).state = (img.assign (e.resolve img.asView)).state ∧
      (img.update e).failure = (img.assign (e.resolve img.asView)).failure := by
  have accepted : checkSize img.size e = .ok () := by
    unfold checkSize
    rw [computed]
    cases size? with
    | none => rfl
    | some size => exact if_pos same
  obtain ⟨updated, updateFailure⟩ := img.update_of_agreed e accepted
  obtain ⟨assigned, assignFailure⟩ := img.assign_of_agreed (e.resolve img.asView) size?
    ((e.viewSize?_resolve img.asView).trans computed)
  -- The loop of the update keeps no old pixels, but it never reads one that is overwritten.
  have loops : (img.writeEach fun pixels i => e.eval (fun source i => source.read pixels i) i) =
      img.writeEach fun _ i => (e.resolve img.asView).read i :=
    img.writeEach_congr _ _ fun pixels i inside unwritten =>
      e.eval_of_unwritten img pixels i inside unwritten
  rw [same, resize_self] at assigned assignFailure
  rw [updated, updateFailure, assigned, assignFailure, loops]
  exact ⟨rfl, rfl⟩

/-- Updating an image gives the same image, and the same failure, as evaluating into it with its old
pixels kept aside. -/
theorem update_eq_assign (img : Image (Pixel f)) (e : Expr (WithSelf f ViewLeaf) f)
    (admits : img.Admits e) :
    (img.update e).state = (img.assign (e.resolve img.asView)).state ∧
      (img.update e).failure = (img.assign (e.resolve img.asView)).failure := by
  cases computed : e.size? fun source => source.sizeOf img.size with
  | error refusal =>
    have refused : checkSize img.size e = .error refusal := by
      unfold checkSize
      rw [computed]
      rfl
    rw [img.update_of_refused e refusal refused,
      img.assign_of_refused _ refusal ((e.viewSize?_resolve img.asView).trans computed)]
    exact ⟨rfl, rfl⟩
  | ok size? =>
    exact img.update_eq_assign_of_agreed e size? computed (admits.getD_eq size? computed)

/-- An image added to itself, with one of the two taken through a wider format. -/
def doubled : Expr (WithSelf .gray8 ViewLeaf) .gray8 :=
  let widen : Conversion PixelFormat.gray8.kind PixelFormat.gray16.kind := .number _ _
  let narrow : Conversion PixelFormat.gray16.kind PixelFormat.gray8.kind := .number _ _
  .binary .plus (.leaf .self) (.cast narrow (.cast widen (.leaf .self)))

theorem update_eq_assign_doubled :
    ramp.Admits doubled ∧
      (ramp.update doubled).state = (ramp.assign (doubled.resolve ramp.asView)).state ∧
      (ramp.update doubled).failure = (ramp.assign (doubled.resolve ramp.asView)).failure := by
  have admits : ramp.Admits doubled := .inl (.head _)
  obtain ⟨state, failure⟩ := update_eq_assign ramp doubled admits
  exact ⟨admits, state, failure⟩

end Image

end Raster
