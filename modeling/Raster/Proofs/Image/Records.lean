import Raster.Proofs.Expr.Totality
import Raster.Proofs.Image.Conversion

/-!
# What the log tells of an image

An image whose pixels move from its slots to the heap, or back, tells so in one record. Nothing else
that happens to its pixels is told. An evaluation announces itself first, while the image still has
its old size, and an operation that is refused has told nothing.
-/

namespace Raster.Image

section

variable {α : Type}

/-- The move of the pixels of one image into the storage of another. -/
def move (old new : Image α) : Reselection :=
  ⟨old.pixelCount, new.pixelCount, old.storage.kind, new.storage.kind⟩

/-- The operation has succeeded. It has told what it announces and, after that, the move of the
pixels if they have moved between the slots and the heap. -/
structure TellsMove (old : Image α) (announced : List LogRecord) (outcome : Outcome (Image α)) :
    Prop where
  success : outcome.failure = none
  of_moved : outcome.state.isInline ≠ old.isInline →
    outcome.records = announced ++ [.reselection (old.move outcome.state)]
  of_stayed : outcome.state.isInline = old.isInline → outcome.records = announced

/-- On the condition the operation is refused, and has changed and told nothing. Otherwise it has told
all that it did. -/
structure TellsMoveUnless (old : Image α) (condition : Prop) (announced : List LogRecord)
    (outcome : Outcome (Image α)) : Prop where
  refused : condition → ∃ refusal, outcome = .failed old (.error refusal)
  accepted : ¬condition → old.TellsMove announced outcome

theorem WellFormed.pixelCount_eq {img : Image α} (wf : img.WellFormed) :
    img.pixelCount = img.size.area :=
  wf.fits.length_eq

/-- The storage that so many pixels call for. -/
def selectedKind (pixelCount : Nat) : StorageKind :=
  if pixelCount ≤ inlineCapacity then .inline else .heap

theorem WellFormed.kind_eq {img : Image α} (wf : img.WellFormed) :
    img.storage.kind = selectedKind img.size.area :=
  wf.fits.kind_eq

/-- What is told depends on the two sizes only. -/
theorem TellsMove.records_eq {old : Image α} {announced : List LogRecord}
    {outcome : Outcome (Image α)} (tells : old.TellsMove announced outcome) (oldWf : old.WellFormed)
    (newWf : outcome.state.WellFormed) (oldSize newSize : Size) (oldHas : old.size = oldSize)
    (newHas : outcome.state.size = newSize) :
    outcome.records = announced ++
      if selectedKind newSize.area = selectedKind oldSize.area then []
      else [.reselection ⟨oldSize.area, newSize.area, selectedKind oldSize.area,
        selectedKind newSize.area⟩] := by
  have kinds := Storage.isInline_eq_iff outcome.state.storage old.storage
  rw [newWf.kind_eq, oldWf.kind_eq, oldHas, newHas] at kinds
  split
  next same => rw [tells.of_stayed (kinds.mpr same), List.append_nil]
  next other =>
    rw [tells.of_moved fun stayed => other (kinds.mp stayed)]
    simp only [move, oldWf.pixelCount_eq, newWf.pixelCount_eq, oldWf.kind_eq, newWf.kind_eq, oldHas,
      newHas]

theorem isInline_blank [Inhabited α] : (blank : Image α).isInline = true :=
  rfl

/-! ### Change of size -/

/-- A change of size tells the move, and only that. -/
theorem told_resize [Inhabited α] (img : Image α) (size : Size) (fill : Option α) :
    (img.resize size fill).2 =
      if (img.resize size fill).1.isInline = img.isInline then none
      else some (img.move (img.resize size fill).1) := by
  by_cases same : size = img.size
  · -- The storage is not reached at all, so its kind stays.
    have kept : img.resize size fill = (img, none) := if_pos same
    rw [kept, if_pos rfl]
  · -- The new storage is of the kind that its length selects, whichever way it came about.
    have fits := Storage.fits_setLength img.storage size.area fill
    simp only [isInline, Storage.isInline_eq_iff, move, pixelCount, resize, if_neg same,
      Storage.told_setLength, fits.kind_eq, fits.length_eq, eq_comm]

/-- Writing pixels after a change of size moves nothing. -/
theorem tellsMove_of_resize [Inhabited α] (img : Image α) (size : Size) (fill : Option α)
    (announced : List LogRecord) (outcome : Outcome (Image α)) (success : outcome.failure = none)
    (records : outcome.records = announced ++ Reselection.records (img.resize size fill).2)
    (sameLength : outcome.state.storage.length = (img.resize size fill).1.storage.length)
    (sameKind : outcome.state.storage.kind = (img.resize size fill).1.storage.kind) :
    img.TellsMove announced outcome := by
  have sameInline : (img.resize size fill).1.isInline = outcome.state.isInline :=
    (Storage.isInline_eq_iff _ _).mpr sameKind.symm
  have sameMove : img.move (img.resize size fill).1 = img.move outcome.state := by
    simp only [move, pixelCount, sameLength, sameKind]
  rw [told_resize, sameInline, sameMove] at records
  constructor
  · exact success
  · intro moved
    rw [records, if_neg moved]
    rfl
  · intro stayed
    rw [records, if_pos stayed]
    exact List.append_nil announced

end

/-! ### The operations that can move pixels -/

variable {f g : PixelFormat}

theorem tellsMove_resize (img : Image (Pixel f)) (size : Size) (fill : Option (Pixel f)) :
    img.TellsMove [] ((Edit.resize size fill : Edit ViewLeaf f).run img) :=
  img.tellsMove_of_resize size fill [] _ rfl rfl rfl rfl

theorem tellsMove_assignConverted (img : Image (Pixel f)) (wf : img.WellFormed)
    (conversion : Conversion g.kind f.kind) (source : View (Pixel g)) (sourceWf : source.WellFormed) :
    img.TellsMove [] (img.assignConverted conversion source) := by
  have success := (img.assignConverted_writes wf conversion source sourceWf).1
  have records := img.records_assignConverted conversion source
  obtain ⟨values, all, -⟩ := source.values_eq_ok sourceWf
  -- The converted pixels are written to the image of the new size.
  have state : (img.assignConverted conversion source).state =
      (img.resize source.size none).1.overwrite (values.map conversion.apply) := by
    simp only [assignConverted, all]
  apply img.tellsMove_of_resize source.size none [] _ success records
  · rw [state]
    exact Storage.length_modify _ _
  · rw [state]
    exact Storage.kind_modify _ _

theorem tellsMove_assign (img : Image (Pixel f)) (wf : img.WellFormed) (e : Expr ViewLeaf f)
    (sources : ∀ l ∈ e.leaves, l.2.WellFormed) (size? : Option Size)
    (agreed : e.viewSize? = .ok size?) :
    img.TellsMove [.evaluation f img.size] (img.assign e) := by
  have success := (img.assign_writes wf e size? agreed sources).1
  have state := (img.assign_of_agreed e size? agreed).1
  apply img.tellsMove_of_resize (size?.getD img.size) none _ _ success
    (img.records_assign e size? agreed)
  · rw [state]
    exact Storage.length_writeEach _ _
  · rw [state]
    exact Storage.kind_writeEach _ _

theorem tellsMoveUnless_assign (img : Image (Pixel f)) (wf : img.WellFormed) (e : Expr ViewLeaf f)
    (sources : ∀ l ∈ e.leaves, l.2.WellFormed) :
    img.TellsMoveUnless (∃ l ∈ e.leaves, ∃ m ∈ e.leaves, l.2.size ≠ m.2.size)
      [.evaluation f img.size] (img.assign e) where
  refused := (img.assign_refused_iff e).mpr
  accepted same := by
    cases agreed : e.viewSize? with
    | error refusal =>
      have refused := img.assign_of_refused e refusal agreed
      exact absurd ((img.assign_refused_iff e).mp ⟨refusal, refused⟩) same
    | ok size? => exact img.tellsMove_assign wf e sources size? agreed

/-- An update changes no size, so it has nothing to tell. -/
theorem update_stays (img : Image (Pixel f)) (e : Expr (WithSelf f ViewLeaf) f) :
    (img.update e).records = [] ∧ (img.update e).state.isInline = img.isInline := by
  cases checked : checkSize img.size e with
  | error refusal =>
    rw [img.update_of_refused e refusal checked]
    exact ⟨rfl, rfl⟩
  | ok =>
    simp only [update, checked, true_and]
    exact (Storage.isInline_eq_iff _ _).mpr (Storage.kind_writeEach _ _)

theorem tellsMoveUnless_update (img : Image (Pixel f)) (wf : img.WellFormed)
    (e : Expr (WithSelf f ViewLeaf) f)
    (sources : ∀ h (v : View (Pixel h)), ⟨h, .other v⟩ ∈ e.leaves → v.WellFormed) :
    img.TellsMoveUnless (∃ l ∈ e.leaves, l.2.sizeOf img.size ≠ img.size) [] (img.update e) where
  refused := (img.update_refused_iff e).mpr
  accepted same := by
    obtain ⟨records, stayed⟩ := img.update_stays e
    rcases img.update_allOrNothing wf e sources with refused | ⟨success, -⟩
    · exact absurd ((img.update_refused_iff e).mp refused) same
    · exact ⟨success, fun moved => absurd stayed moved, fun _ => records⟩

/-- The log tells exactly the moves of pixels between slots and heap. An evaluation announces itself
before, with the size that the image has until then. Evaluations are refused where sizes disagree,
and have told nothing then. New images start without pixels in the slots of the blank image. -/
theorem log_tells_moves (img : Image (Pixel f)) (reachable : img.Reachable) :
    (∀ size fill, img.TellsMove [] ((Edit.resize size fill : Edit ViewLeaf f).run img)) ∧
    (∀ g (conversion : Conversion g.kind f.kind) (source : View (Pixel g)), source.Reachable →
      img.TellsMove [] (img.assignConverted conversion source) ∧
        blank.TellsMove [] (ofConverted conversion source)) ∧
    (∀ e : Expr ViewLeaf f, (∀ l ∈ e.leaves, View.Reachable l.2) →
      let disagree := ∃ l ∈ e.leaves, ∃ m ∈ e.leaves, l.2.size ≠ m.2.size
      img.TellsMoveUnless disagree [.evaluation f img.size] (img.assign e) ∧
        blank.TellsMoveUnless disagree [.evaluation f ⟨0, 0⟩] (ofExpr e)) ∧
    (∀ e : Expr (WithSelf f ViewLeaf) f,
      (∀ h (v : View (Pixel h)), ⟨h, .other v⟩ ∈ e.leaves → v.Reachable) →
        img.TellsMoveUnless (∃ l ∈ e.leaves, l.2.sizeOf img.size ≠ img.size) [] (img.update e) ∧
          (img.update e).records = []) ∧
    (blank : Image (Pixel f)).isInline = true ∧ (blank : Image (Pixel f)).pixelCount = 0 := by
  have wf := reachable.wellFormed
  refine ⟨img.tellsMove_resize, fun g conversion source made => ?_, fun e sources => ?_,
    fun e sources => ?_, isInline_blank, wellFormed_blank.pixelCount_eq⟩
  · have sourceWf := made.wellFormed
    exact ⟨img.tellsMove_assignConverted wf conversion source sourceWf,
      blank.tellsMove_assignConverted wellFormed_blank conversion source sourceWf⟩
  · have sourcesWf (l) (member : l ∈ e.leaves) : l.2.WellFormed := (sources l member).wellFormed
    exact ⟨img.tellsMoveUnless_assign wf e sourcesWf,
      blank.tellsMoveUnless_assign wellFormed_blank e sourcesWf⟩
  · have sourcesWf (h) (v : View (Pixel h)) (member : ⟨h, .other v⟩ ∈ e.leaves) : v.WellFormed :=
      (sources h v member).wellFormed
    exact ⟨img.tellsMoveUnless_update wf e sourcesWf, (img.update_stays e).1⟩

/-- A change of size that outgrows the slots, a conversion and an evaluation that get back into them,
an evaluation that stays in them, and one that is refused. -/
theorem log_tells_moves_wall :
    ramp.Reachable ∧ wall.Reachable ∧ ∃ window,
      ramp.asView.subViews [⟨⟨1, 1⟩, ⟨4, 3⟩⟩, ⟨⟨2, 1⟩, ⟨2, 2⟩⟩] = .ok window ∧
      ((Edit.resize ⟨40, 40⟩ none : Edit ViewLeaf .gray8).run ramp).records =
        [.reselection ⟨24, 1600, .inline, .heap⟩] ∧
      (wall.assignConverted widen window).records =
        [.reselection ⟨1600, 4, .heap, .inline⟩] ∧
      (wall.assign (.cast widen (.leaf window))).records =
        [.evaluation .gray16 ⟨40, 40⟩, .reselection ⟨1600, 4, .heap, .inline⟩] ∧
      (ramp.assign (.leaf window)).records = [.evaluation .gray8 ⟨6, 4⟩] ∧
      (ramp.assign (.binary .plus (.leaf window) (.leaf ramp.asView))).records = [] ∧
      (ramp.update (.leaf .self)).records = [] := by
  obtain ⟨window, chain⟩ : ∃ window,
      ramp.asView.subViews [⟨⟨1, 1⟩, ⟨4, 3⟩⟩, ⟨⟨2, 1⟩, ⟨2, 2⟩⟩] = .ok window := ⟨_, rfl⟩
  have rampWf := ramp_reachable.wellFormed
  have wallWf : wall.WellFormed := wellFormed_filled 40 40 _
  have wallMade : wall.Reachable := (reachable_iff_wellFormed wall).mpr wallWf
  have made : window.Reachable := ⟨ramp, ramp_reachable, _, chain⟩
  have size : window.size = ⟨2, 2⟩ :=
    (View.isWindowOf_of_subViews _ _ window rampWf.asView chain).1
  have sourceMade : ∀ l ∈ (Expr.leaf window : Expr ViewLeaf .gray8).leaves, View.Reachable l.2 := by
    simpa [Expr.leaves] using made
  have sourceWf (l) (member : l ∈ (Expr.leaf window : Expr ViewLeaf .gray8).leaves) :
      l.2.WellFormed := (sourceMade l member).wellFormed
  -- One view does not disagree with itself.
  have single {f : PixelFormat} {e : Expr ViewLeaf f} (only : e.leaves = [⟨.gray8, window⟩]) :
      ¬∃ l ∈ e.leaves, ∃ m ∈ e.leaves, l.2.size ≠ m.2.size := by
    simp [only]
  obtain ⟨resizes, -, assigns, updates, -⟩ := log_tells_moves ramp ramp_reachable
  obtain ⟨-, converts, wallAssigns, -⟩ := log_tells_moves wall wallMade
  refine ⟨ramp_reachable, wallMade, window, chain, ?_, ?_, ?_, ?_, ?_, ?_⟩
  · exact (resizes ⟨40, 40⟩ none).records_eq rampWf (Edit.run_wellFormed ramp rampWf _) ⟨6, 4⟩
      ⟨40, 40⟩ rfl (ramp.size_resize ⟨40, 40⟩ none)
  · have written := (wall.assignConverted_writes wallWf widen window made.wellFormed).2.1
    exact (converts _ widen window made).1.records_eq wallWf
      (wellFormed_assignConverted wallWf widen window) ⟨40, 40⟩ ⟨2, 2⟩ rfl (written.trans size)
  · have written := (wall.assign_writes wallWf (.cast widen (.leaf window)) (some window.size) rfl
      sourceWf).2.1
    have tells := (wallAssigns (.cast widen (.leaf window)) sourceMade).1.accepted (single rfl)
    exact tells.records_eq wallWf (wellFormed_assign wallWf _) ⟨40, 40⟩ ⟨2, 2⟩ rfl
      (written.trans size)
  · have written := (ramp.assign_writes rampWf (.leaf window) (some window.size) rfl sourceWf).2.1
    have tells := (assigns (.leaf window) sourceMade).1.accepted (single rfl)
    exact tells.records_eq rampWf (wellFormed_assign rampWf _) ⟨6, 4⟩ ⟨2, 2⟩ rfl
      (written.trans size)
  · have whole : View.Reachable ramp.asView := ⟨ramp, ramp_reachable, [], rfl⟩
    have mixed := (assigns (.binary .plus (.leaf window) (.leaf ramp.asView))
      (by simp [Expr.leaves, made, whole])).1
    obtain ⟨refusal, refused⟩ :=
      mixed.refused ⟨_, .head _, _, .tail _ (.head _), by rw [size]; decide⟩
    rw [refused]
    rfl
  · exact (updates (.leaf .self) (by rintro h v (_ | ⟨_, ⟨⟩⟩))).2

end Raster.Image
