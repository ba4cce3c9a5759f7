import Raster.Proofs.Image.WellFormed

/-!
# Creations and edits keep images well formed

One case for each way to make an image and for each way to change one. The sources are arbitrary
views: what they show, and whether reading them faults, makes no difference to the shape of the
image that is left.
-/

namespace Raster

/-- What holds of the old state and of every new one holds of the state that is left. -/
theorem Outcome.ofExcept_induction {State : Type} (motive : State → Prop) (old : State)
    (result : Except Failure State) (kept : motive old)
    (reached : ∀ new, result = .ok new → motive new) : motive (ofExcept old result).state := by
  cases result with
  | error failure => exact kept
  | ok new => exact reached new rfl

theorem Outcome.state_ofExcept_of_failed {State : Type} (old : State)
    (result : Except Failure State) (failed : (ofExcept old result).failure ≠ none) :
    (ofExcept old result).state = old := by
  cases result with
  | error failure => rfl
  | ok new => exact absurd rfl failed

namespace Image

variable {f g : PixelFormat} {img : Image (Pixel f)}

/-! ### What evaluation leaves -/

theorem assign_of_refused (img : Image (Pixel f)) (e : Expr ViewLeaf f) (refusal : Error)
    (refused : e.viewSize? = .error refusal) : img.assign e = .failed img (.error refusal) := by
  unfold assign
  rw [refused]

theorem assign_of_agreed (img : Image (Pixel f)) (e : Expr ViewLeaf f) (size? : Option Size)
    (agreed : e.viewSize? = .ok size?) :
    (img.assign e).state =
        ((img.resize (size?.getD img.size) none).1.writeEach fun _ i => e.read i).1 ∧
      (img.assign e).failure =
        ((img.resize (size?.getD img.size) none).1.writeEach fun _ i => e.read i).2.map .fault := by
  unfold assign
  rw [agreed]
  exact ⟨rfl, rfl⟩

theorem update_of_refused (img : Image (Pixel f)) (e : Expr (WithSelf f ViewLeaf) f)
    (refusal : Error) (refused : checkSize img.size e = .error refusal) :
    img.update e = .failed img (.error refusal) := by
  unfold update
  rw [refused]

theorem update_of_agreed (img : Image (Pixel f)) (e : Expr (WithSelf f ViewLeaf) f)
    (agreed : checkSize img.size e = .ok ()) :
    (img.update e).state = (img.writeEach fun pixels i =>
        e.eval (fun source i => source.read pixels i) i).1 ∧
      (img.update e).failure = (img.writeEach fun pixels i =>
        e.eval (fun source i => source.read pixels i) i).2.map .fault := by
  unfold update
  rw [agreed]
  exact ⟨rfl, rfl⟩

/-! ### Evaluation keeps images well formed -/

theorem wellFormed_assign (wf : img.WellFormed) (e : Expr ViewLeaf f) :
    (img.assign e).state.WellFormed := by
  cases size : e.viewSize? with
  | error refusal =>
    rw [assign_of_refused img e refusal size]
    exact wf
  | ok size? =>
    rw [(assign_of_agreed img e size? size).1]
    exact wellFormed_writeEach (wellFormed_resize wf _ none) _

theorem wellFormed_update (wf : img.WellFormed) (e : Expr (WithSelf f ViewLeaf) f) :
    (img.update e).state.WellFormed := by
  cases check : checkSize img.size e with
  | error refusal =>
    rw [update_of_refused img e refusal check]
    exact wf
  | ok =>
    rw [(update_of_agreed img e check).1]
    exact wellFormed_writeEach wf _

theorem wellFormed_assignConverted (wf : img.WellFormed) (conversion : Conversion g.kind f.kind)
    (source : View (Pixel g)) : (img.assignConverted conversion source).state.WellFormed := by
  have resized := wellFormed_resize wf source.size none
  unfold assignConverted
  dsimp only
  split
  · exact wellFormed_apply resized _
  · exact resized

theorem wellFormed_toImage (source : View (Pixel f)) (copied : Image (Pixel f))
    (returned : source.toImage = .ok copied) : copied.WellFormed := by
  simp only [View.toImage, bind_eq_ok_iff, pure_eq_ok_iff] at returned
  obtain ⟨values, -, rfl⟩ := returned
  exact wellFormed_apply (wellFormed_filled _ _ _) _

end Image

open Image

variable {f : PixelFormat}

theorem Creation.run_wellFormed (creation : Creation ViewLeaf f) :
    creation.run.state.WellFormed := by
  cases creation with
  | blank => exact wellFormed_blank
  | zeroed size => exact wellFormed_filled _ _ _
  | filled size value => exact wellFormed_filled _ _ _
  | ofArray size pixels =>
    apply Outcome.ofExcept_induction _ _ _ wellFormed_blank
    intro made returned
    exact wellFormed_ofArray _ _ pixels made ((mapError_eq_ok_iff _ _ made).mp returned)
  | ofExpr e => exact wellFormed_assign wellFormed_blank e
  | ofConverted conversion source => exact wellFormed_assignConverted wellFormed_blank _ source
  | ofView source =>
    apply Outcome.ofExcept_induction _ _ _ wellFormed_blank
    intro copied returned
    exact wellFormed_toImage source copied ((mapError_eq_ok_iff _ _ copied).mp returned)

/-- The image that an edit leaves is well formed if the old one was, also after a failure. -/
theorem Edit.run_wellFormed (img : Image (Pixel f)) (wf : img.WellFormed)
    (change : Edit ViewLeaf f) : (change.run img).state.WellFormed := by
  cases change with
  | assign e => exact wellFormed_assign wf e
  | update e => exact wellFormed_update wf e
  | assignConverted conversion source => exact wellFormed_assignConverted wf _ source
  | resize size value => exact wellFormed_resize wf size value
  | set position value =>
    apply Outcome.ofExcept_induction _ _ _ wf
    intro new returned
    exact wellFormed_set wf position value new ((mapError_eq_ok_iff _ _ new).mp returned)
  | setInLine y x value =>
    apply Outcome.ofExcept_induction _ _ _ wf
    intro new returned
    exact wellFormed_setInLine wf y x value new returned
  | applyLine y rule =>
    apply Outcome.ofExcept_induction _ _ _ wf
    intro new returned
    exact wellFormed_applyLine wf y rule new ((mapError_eq_ok_iff _ _ new).mp returned)
  | fill value => exact wellFormed_apply wf _
  | apply rule => exact wellFormed_apply wf rule

end Raster
