import Raster.Proofs.Image.Visible

/-!
# Conversion of whole images

An image of another format comes from walking through the rows of the source, or from evaluating a
tree with the source as its only leaf. The first writes into pixels that may still be those of the
destination, the second reads the source by its linear index. A view has one pixel in its rows for
each linear index, in the same order, so both leave the same image: that of the converted pixels.
-/

namespace Raster.Image

variable {f g : PixelFormat}

/-- The outcome is an image of the given size. Each of its pixels is the conversion of what `get`
returns at the same column and row. -/
structure IsConversionOf (outcome : Outcome (Image (Pixel f)))
    (conversion : Conversion g.kind f.kind) (size : Size)
    (get : UInt32 → UInt32 → Except Fault (Pixel g)) : Prop where
  failure_eq : outcome.failure = none
  size_eq : outcome.state.size = size
  get_cell : ∀ x y, x < size.width → y < size.height →
    ∃ p, get x y = .ok p ∧ outcome.state.get (.cell x y) = .ok (conversion.apply p)

namespace IsConversionOf

variable {a b : Outcome (Image (Pixel f))} {conversion : Conversion g.kind f.kind} {size : Size}
  {get other : UInt32 → UInt32 → Except Fault (Pixel g)}

theorem congr (converted : IsConversionOf a conversion size get)
    (same : ∀ x y, x < size.width → y < size.height → get x y = other x y) :
    IsConversionOf a conversion size other where
  failure_eq := converted.failure_eq
  size_eq := converted.size_eq
  get_cell x y column row := by
    rw [← same x y column row]
    exact converted.get_cell x y column row

/-- A conversion leaves nothing open but hidden slots. -/
theorem sameVisible (convertedA : IsConversionOf a conversion size get)
    (convertedB : IsConversionOf b conversion size get) (wfA : a.state.WellFormed)
    (wfB : b.state.WellFormed) : a.state.SameVisible b.state := by
  apply SameVisible.of_cells wfA wfB (convertedA.size_eq.trans convertedB.size_eq.symm)
  intro x y column row
  have inColumns : x < size.width := convertedB.size_eq ▸ column
  have inRows : y < size.height := convertedB.size_eq ▸ row
  obtain ⟨p, shown, here⟩ := convertedA.get_cell x y inColumns inRows
  obtain ⟨q, shownAgain, there⟩ := convertedB.get_cell x y inColumns inRows
  obtain rfl : p = q := Except.ok.inj (shown.symm.trans shownAgain)
  exact ⟨conversion.apply p, here, there⟩

end IsConversionOf

/-! ### The two ways to convert -/

theorem assignConverted_isConversionOf (img : Image (Pixel f)) (wf : img.WellFormed)
    (conversion : Conversion g.kind f.kind) (source : View (Pixel g))
    (sourceWf : source.WellFormed) :
    IsConversionOf (img.assignConverted conversion source) conversion source.size source.get := by
  obtain ⟨success, size, written⟩ := img.assignConverted_writes wf conversion source sourceWf
  refine ⟨success, size, fun x y column row => ?_⟩
  -- The row-major index of the image that is written is that of the view that is walked through.
  obtain ⟨p, reads, here⟩ := written _ (RowMajor.index_lt x.toNat y.toNat _ _ column row)
  refine ⟨p, (source.read_index sourceWf x y column row).symm.trans reads, ?_⟩
  exact get_cell_of_item _ _ size x y _ column row here

theorem assign_cast_isConversionOf (img : Image (Pixel f)) (wf : img.WellFormed)
    (conversion : Conversion g.kind f.kind) (source : View (Pixel g))
    (sourceWf : source.WellFormed) :
    IsConversionOf (img.assign (.cast conversion (.leaf source))) conversion source.size
      source.get := by
  have leaves : (.cast conversion (.leaf source) : Expr ViewLeaf f).leaves = [⟨g, source⟩] := rfl
  obtain ⟨success, size, meant⟩ := img.assign_isImageOf wf (.cast conversion (.leaf source))
    (some source.size) rfl (by simpa [leaves] using sourceWf)
  refine ⟨success, size, fun x y column row => ?_⟩
  obtain ⟨p, shown⟩ := source.exists_get sourceWf x y column row
  obtain ⟨q, means, here⟩ := meant x y column row
  -- The tree has one leaf, so it means the conversion of the pixel at the same place.
  have value : (.cast conversion (.leaf source) : Expr ViewLeaf f).valueAt x y =
      .ok (conversion.apply p) := by
    simp only [Expr.valueAt, shown]
    rfl
  rw [← Except.ok.inj (value.symm.trans means)] at here
  exact ⟨p, shown, here⟩

/-! ### Agreement -/

/-- The new image, the overwritten image and the evaluated tree are the same image, which shows the
conversion of each pixel. -/
structure ConversionsAgree (img : Image (Pixel f)) (conversion : Conversion g.kind f.kind)
    (source : View (Pixel g)) (size : Size) (get : UInt32 → UInt32 → Except Fault (Pixel g)) :
    Prop where
  created : IsConversionOf (ofConverted conversion source) conversion size get
  overwritten : IsConversionOf (img.assignConverted conversion source) conversion size get
  evaluated : IsConversionOf (ofExpr (.cast conversion (.leaf source))) conversion size get
  overwritten_same :
    (img.assignConverted conversion source).state.SameVisible (ofConverted conversion source).state
  evaluated_same : (ofExpr (.cast conversion (.leaf source)) :
    Outcome (Image (Pixel f))).state.SameVisible (ofConverted conversion source).state

theorem conversionsAgree_of_wellFormed (img : Image (Pixel f)) (wf : img.WellFormed)
    (conversion : Conversion g.kind f.kind) (source : View (Pixel g))
    (sourceWf : source.WellFormed) :
    img.ConversionsAgree conversion source source.size source.get := by
  have created := blank.assignConverted_isConversionOf wellFormed_blank conversion source sourceWf
  have overwritten := img.assignConverted_isConversionOf wf conversion source sourceWf
  have evaluated := blank.assign_cast_isConversionOf wellFormed_blank conversion source sourceWf
  have createdWf := wellFormed_assignConverted wellFormed_blank conversion source
  refine ⟨created, overwritten, evaluated, ?_, ?_⟩
  · exact overwritten.sameVisible created (wellFormed_assignConverted wf _ source) createdWf
  · exact evaluated.sameVisible created (wellFormed_assign wellFormed_blank _) createdWf

theorem ConversionsAgree.congr {img : Image (Pixel f)} {conversion : Conversion g.kind f.kind}
    {source : View (Pixel g)} {size : Size}
    {get other : UInt32 → UInt32 → Except Fault (Pixel g)}
    (agree : img.ConversionsAgree conversion source size get)
    (same : ∀ x y, x < size.width → y < size.height → get x y = other x y) :
    img.ConversionsAgree conversion source size other where
  created := agree.created.congr same
  overwritten := agree.overwritten.congr same
  evaluated := agree.evaluated.congr same
  overwritten_same := agree.overwritten_same
  evaluated_same := agree.evaluated_same

/-- All ways to convert a view, or a whole image, leave the same image, whatever the image that is
overwritten was before. -/
theorem conversions_agree (img : Image (Pixel f)) (reachable : img.Reachable)
    (conversion : Conversion g.kind f.kind) :
    (∀ source : View (Pixel g), source.Reachable →
      img.ConversionsAgree conversion source source.size source.get) ∧
    ∀ source : Image (Pixel g), source.Reachable →
      img.ConversionsAgree conversion source.asView source.size fun x y =>
        source.get (.cell x y) := by
  have wf := reachable.wellFormed
  constructor
  · intro source made
    exact img.conversionsAgree_of_wellFormed wf conversion source made.wellFormed
  · intro source made
    have sourceWf := made.wellFormed
    apply (img.conversionsAgree_of_wellFormed wf conversion source.asView sourceWf.asView).congr
    intro x y column row
    exact source.get_asView sourceWf x y column row

def widen : Conversion PixelFormat.gray8.kind PixelFormat.gray16.kind :=
  .number _ _

/-- More levels than there are slots. -/
def wall : Image (Pixel .gray16) :=
  filled 40 40 (Level.ofNat 300 : Level 16)

/-- A nested window with gaps between its rows, a window without columns at the far edge, and a whole
image, all into an image that lies on the heap. -/
theorem conversions_agree_widen :
    wall.Reachable ∧ wall.isInline = false ∧ ramp.Reachable ∧ ∃ window edge,
      ramp.asView.subViews [⟨⟨1, 1⟩, ⟨4, 3⟩⟩, ⟨⟨2, 1⟩, ⟨2, 2⟩⟩] = .ok window ∧
      ramp.asView.subViews [⟨⟨6, 2⟩, ⟨0, 2⟩⟩] = .ok edge ∧
      wall.ConversionsAgree widen window window.size window.get ∧
      wall.ConversionsAgree widen edge edge.size edge.get ∧
      wall.ConversionsAgree widen ramp.asView ramp.size fun x y => ramp.get (.cell x y) := by
  obtain ⟨window, chain⟩ : ∃ window,
      ramp.asView.subViews [⟨⟨1, 1⟩, ⟨4, 3⟩⟩, ⟨⟨2, 1⟩, ⟨2, 2⟩⟩] = .ok window := ⟨_, rfl⟩
  obtain ⟨edge, atEdge⟩ : ∃ edge, ramp.asView.subViews [⟨⟨6, 2⟩, ⟨0, 2⟩⟩] = .ok edge := ⟨_, rfl⟩
  have reachable : wall.Reachable :=
    (reachable_iff_wellFormed wall).mpr (wellFormed_filled 40 40 _)
  obtain ⟨views, images⟩ := conversions_agree wall reachable widen
  exact ⟨reachable, rfl, ramp_reachable, window, edge, chain, atEdge,
    views window ⟨ramp, ramp_reachable, _, chain⟩, views edge ⟨ramp, ramp_reachable, _, atEdge⟩,
    images ramp ramp_reachable⟩

end Raster.Image
