import Raster.Edit
import Raster.Proofs.Expr.Leaves
import Raster.Proofs.View.Compact

/-!
# What trees and edits read of their sources

Trees, creations and edits are written over names, and a view is found for each name before anything
is done. What is done depends only on what the found views show. So if two ways to find views find
views that show the same, then the trees that are found read the same, and the creations and edits
that are found do the same to every image.
-/

namespace Raster

variable {Leaf Other : PixelFormat → Type} {f target : PixelFormat}

/-! ### Finding -/

namespace Expr

theorem mapM_agree {Shown : PixelFormat → Type}
    (find other : {g : PixelFormat} → Leaf g → Except Failure (Other g))
    (shown : {g : PixelFormat} → Other g → Shown g)
    (agree : ∀ {g : PixelFormat} (source : Leaf g),
      Agree (fun u v => shown u = shown v) (find source) (other source)) (e : Expr Leaf f) :
    Agree (fun a b => a.map shown = b.map shown) (e.mapM find) (e.mapM other) := by
  induction e with
  | const value => exact .ok rfl
  | leaf source => exact (agree source).bind fun _ _ same => .ok (congrArg leaf same)
  | binary op left right ihl ihr =>
    -- The left operand is found first, so a failure there hides one on the right.
    apply ihl.bind
    intro _ _ sameLeft
    apply ihr.bind
    intro _ _ sameRight
    refine .ok ?_
    simp only [map] at sameLeft sameRight
    simp only [map, bind, sameLeft, sameRight]
  | cast conversion inner ih => exact ih.bind fun _ _ same => .ok (congrArg (cast conversion) same)

/-- What holds of everything that can be found holds of all leaves of a tree that is found. -/
theorem forall_leaves_of_mapM (find : {g : PixelFormat} → Leaf g → Except Failure (Other g))
    (property : (g : PixelFormat) × Other g → Prop)
    (holds : ∀ {g : PixelFormat} (source : Leaf g) (v : Other g), find source = .ok v →
      property ⟨g, v⟩) (e : Expr Leaf f) (found : Expr Other f) (returned : e.mapM find = .ok found) :
    ∀ l ∈ found.leaves, property l := by
  induction e with
  | const value =>
    cases returned
    simp [leaves]
  | leaf source =>
    simp only [mapM, bind_eq_ok_iff, pure_eq_ok_iff] at returned
    obtain ⟨v, finds, rfl⟩ := returned
    simpa [leaves] using holds source v finds
  | binary op left right ihl ihr =>
    simp only [mapM, bind_eq_ok_iff, pure_eq_ok_iff] at returned
    obtain ⟨_, foundLeft, _, foundRight, rfl⟩ := returned
    exact (forall_leaves_binary op _ _ property).mpr ⟨ihl _ foundLeft, ihr _ foundRight⟩
  | cast conversion inner ih =>
    simp only [mapM, bind_eq_ok_iff, pure_eq_ok_iff] at returned
    obtain ⟨_, foundInner, rfl⟩ := returned
    exact ih _ foundInner

end Expr

namespace WithSelf

def compact : {f : PixelFormat} → WithSelf target ViewLeaf f → WithSelf target ViewLeaf f
  | _, self => self
  | _, other v => other v.compact

theorem sizeOf_compact (size : Size) (source : WithSelf target ViewLeaf f) :
    source.compact.sizeOf size = source.sizeOf size := by
  cases source <;> rfl

theorem read_compact (pixels : Slice (Pixel target)) (source : WithSelf target ViewLeaf f)
    (i : Nat) : source.compact.read pixels i = source.read pixels i := by
  cases source with
  | self => rfl
  | other v => exact v.read_compact i

theorem mapM_agree (find other : {g : PixelFormat} → Leaf g → Except Failure (ViewLeaf g))
    (agree : ∀ {g : PixelFormat} (source : Leaf g),
      Agree (fun u v => u.compact = v.compact) (find source) (other source))
    (source : WithSelf target Leaf f) :
    Agree (fun u v => u.compact = v.compact) (source.mapM find) (source.mapM other) := by
  cases source with
  | self => exact .ok rfl
  | other source => exact (agree source).bind fun _ _ same => .ok (congrArg WithSelf.other same)

end WithSelf

/-! ### Evaluation -/

namespace Image

/-- Trees whose views show the same are evaluated to the same outcome. -/
theorem assign_congr (img : Image (Pixel f)) (e other : Expr ViewLeaf f)
    (same : e.map View.compact = other.map View.compact) : img.assign e = img.assign other := by
  have size (e : Expr ViewLeaf f) : (e.map View.compact).viewSize? = e.viewSize? := by
    unfold Expr.viewSize?
    rw [Expr.size?_map]
    rfl
  have read (e : Expr ViewLeaf f) (i : Nat) : (e.map View.compact).read i = e.read i := by
    unfold Expr.read
    rw [Expr.eval_map]
    simp only [View.read_compact]
  have sizes : e.viewSize? = other.viewSize? := by rw [← size, same, size]
  have reads (i : Nat) : e.read i = other.read i := by rw [← read, same, read]
  unfold assign
  simp only [sizes, reads]

theorem update_congr (img : Image (Pixel f)) (e other : Expr (WithSelf f ViewLeaf) f)
    (same : e.map WithSelf.compact = other.map WithSelf.compact) :
    img.update e = img.update other := by
  have size (e : Expr (WithSelf f ViewLeaf) f) :
      ((e.map WithSelf.compact).size? fun source => source.sizeOf img.size) =
        e.size? fun source => source.sizeOf img.size := by
    rw [Expr.size?_map]
    simp only [WithSelf.sizeOf_compact]
  have read (pixels : Slice (Pixel f)) (e : Expr (WithSelf f ViewLeaf) f) (i : Nat) :
      (e.map WithSelf.compact).eval (fun source i => source.read pixels i) i =
        e.eval (fun source i => source.read pixels i) i := by
    rw [Expr.eval_map]
    simp only [WithSelf.read_compact]
  have checks : checkSize img.size e = checkSize img.size other := by
    unfold checkSize
    rw [← size, same, size]
  have reads (pixels : Slice (Pixel f)) (i : Nat) :
      e.eval (fun source i => source.read pixels i) i =
        other.eval (fun source i => source.read pixels i) i := by
    rw [← read, same, read]
  unfold update
  simp only [checks, reads]

theorem assignConverted_congr {g : PixelFormat} (img : Image (Pixel f))
    (conversion : Conversion g.kind f.kind) (source other : View (Pixel g))
    (same : source.compact = other.compact) :
    img.assignConverted conversion source = img.assignConverted conversion other := by
  have sizes : source.size = other.size := by rw [← source.size_compact, same, other.size_compact]
  have values : source.values = other.values := by
    rw [← source.values_compact, same, other.values_compact]
  unfold assignConverted
  rw [sizes, values]

end Image

/-! ### Creations and edits -/

variable (find other : {g : PixelFormat} → Leaf g → Except Failure (ViewLeaf g))
  (agree : ∀ {g : PixelFormat} (source : Leaf g),
    Agree (fun u v => u.compact = v.compact) (find source) (other source))

include agree

theorem Creation.mapM_agree (creation : Creation Leaf f) :
    Agree (fun a b => a.run = b.run) (creation.mapM find) (creation.mapM other) := by
  cases creation with
  | blank => exact .ok rfl
  | zeroed size => exact .ok rfl
  | filled size value => exact .ok rfl
  | ofArray size pixels => exact .ok rfl
  | ofExpr e =>
    apply (e.mapM_agree find other View.compact agree).bind
    intro a b same
    exact .ok (Image.assign_congr _ a b same)
  | ofConverted conversion source =>
    apply (agree source).bind
    intro u v same
    exact .ok (Image.assignConverted_congr _ conversion u v same)
  | ofView source =>
    apply (agree source).bind
    intro u v same
    have copies : u.toImage = v.toImage := by rw [← u.toImage_compact, same, v.toImage_compact]
    refine .ok ?_
    simp only [run, copies]

theorem Edit.mapM_agree (change : Edit Leaf f) :
    Agree (fun a b => ∀ img, a.run img = b.run img) (change.mapM find) (change.mapM other) := by
  cases change with
  | assign e =>
    apply (e.mapM_agree find other View.compact agree).bind
    intro a b same
    exact .ok fun img => img.assign_congr a b same
  | update e =>
    have leaves := e.mapM_agree (WithSelf.mapM find) (WithSelf.mapM other) WithSelf.compact
      (WithSelf.mapM_agree find other agree)
    apply leaves.bind
    intro a b same
    exact .ok fun img => img.update_congr a b same
  | assignConverted conversion source =>
    apply (agree source).bind
    intro u v same
    exact .ok fun img => img.assignConverted_congr conversion u v same
  | resize size value => exact .ok fun _ => rfl
  | set position value => exact .ok fun _ => rfl
  | setInLine y x value => exact .ok fun _ => rfl
  | applyLine y rule => exact .ok fun _ => rfl
  | fill value => exact .ok fun _ => rfl
  | apply rule => exact .ok fun _ => rfl

end Raster
