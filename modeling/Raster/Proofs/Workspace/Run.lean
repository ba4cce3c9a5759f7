import Raster.Workspace
import Raster.Proofs.Image.Change

/-!
# Runs of commands

A run executes commands one after the other, each on what the last one left, whether that succeeded
or not. Every image after any run is well formed: one command keeps all images well formed, whatever
it names and however it fails, and the run follows by induction.
-/

namespace Raster

namespace Workspace

/-- The workspace that a run of commands leaves. -/
def execute (w : Workspace) (commands : List Command) : Workspace :=
  commands.foldl (fun w command => (Command.run w command).state) w

/-- Every image in the workspace is well formed. -/
def WellFormed (w : Workspace) : Prop :=
  ∀ entry ∈ w.images, entry.2.image.WellFormed

theorem wellFormed_empty : empty.WellFormed := by
  intro entry member
  cases member

theorem wellFormed_insert (w : Workspace) (name : String) (image : AnyImage) (wf : w.WellFormed)
    (imageWf : image.image.WellFormed) : (w.insert name image).WellFormed := by
  intro entry member
  rcases List.mem_cons.mp member with rfl | old
  · exact imageWf
  · exact wf entry (List.mem_filter.mp old).1

/-! ### Found images -/

theorem mem_of_find? (w : Workspace) (name : String) (image : AnyImage)
    (found : w.find? name = some image) : (name, image) ∈ w.images := by
  obtain ⟨before, after, split, -⟩ := List.lookup_eq_some_iff.mp found
  rw [split]
  simp

theorem wellFormed_get (w : Workspace) (name : String) (image : AnyImage) (wf : w.WellFormed)
    (returned : w.get name = .ok image) : image.image.WellFormed := by
  unfold get at returned
  split at returned
  next found =>
    cases returned
    exact wf (name, image) (w.mem_of_find? name image found)
  next => cases returned

theorem wellFormed_getAs (w : Workspace) (f : PixelFormat) (name : String)
    (img : Image (Pixel f)) (wf : w.WellFormed) (returned : w.getAs f name = .ok img) :
    img.WellFormed := by
  simp only [getAs, bind_eq_ok_iff] at returned
  obtain ⟨⟨format, image⟩, found, matched⟩ := returned
  have imageWf : image.WellFormed := w.wellFormed_get name ⟨format, image⟩ wf found
  split at matched
  next same =>
    cases same
    cases matched
    exact imageWf
  next => cases matched

end Workspace

/-! ### One command -/

namespace Command

open Workspace

variable (w : Workspace)

theorem runCreate_wellFormed (wf : w.WellFormed) (name : String) {f : PixelFormat}
    (creation : Creation SourceLeaf f) : (runCreate w name creation).state.WellFormed := by
  unfold runCreate
  split
  · exact wf
  next found resolved =>
    dsimp only
    split
    · exact wellFormed_insert w name _ wf found.run_wellFormed
    · exact wf

theorem runEdit_wellFormed (wf : w.WellFormed) (name : String) {f : PixelFormat}
    (change : Edit SourceLeaf f) : (runEdit w name change).state.WellFormed := by
  unfold runEdit
  split
  next found img resolved returned =>
    have imgWf := w.wellFormed_getAs f name img wf returned
    exact wellFormed_insert w name _ wf (found.run_wellFormed img imgWf)
  · exact wf
  · exact wf

theorem runSplitComplex_wellFormed (wf : w.WellFormed) (source re im : String) (new : Workspace)
    (returned : runSplitComplex w source re im = .ok new) : new.WellFormed := by
  simp only [runSplitComplex, bind_eq_ok_iff, pure_eq_ok_iff] at returned
  obtain ⟨img, -, rfl⟩ := returned
  have reals := wellFormed_insert w re ⟨.grayFloat, img.channel Complex.re⟩ wf
    (Image.wellFormed_withPixels img _)
  exact wellFormed_insert _ im _ reals (Image.wellFormed_withPixels img _)

theorem runJoinComplex_wellFormed (wf : w.WellFormed) (name re im : String) (new : Workspace)
    (returned : runJoinComplex w name re im = .ok new) : new.WellFormed := by
  simp only [runJoinComplex, bind_eq_ok_iff, pure_eq_ok_iff] at returned
  obtain ⟨reals, -, imaginaries, -, joined, made, rfl⟩ := returned
  exact wellFormed_insert w name _ wf
    (Image.wellFormed_joinComplex _ _ joined ((liftError_eq_ok_iff _ joined).mp made))

theorem runSplitRgba_wellFormed (wf : w.WellFormed) (source r g b a : String) (new : Workspace)
    (returned : runSplitRgba w source r g b a = .ok new) : new.WellFormed := by
  simp only [runSplitRgba, bind_eq_ok_iff, pure_eq_ok_iff] at returned
  obtain ⟨img, -, rfl⟩ := returned
  have red := wellFormed_insert w r ⟨.gray8, Image.channel img Rgba.r⟩ wf
    (Image.wellFormed_withPixels _ _)
  have green := wellFormed_insert _ g ⟨.gray8, Image.channel img Rgba.g⟩ red
    (Image.wellFormed_withPixels _ _)
  have blue := wellFormed_insert _ b ⟨.gray8, Image.channel img Rgba.b⟩ green
    (Image.wellFormed_withPixels _ _)
  exact wellFormed_insert _ a _ blue (Image.wellFormed_withPixels _ _)

theorem grayscaleOf_wellFormed (r g b : String) (gray : Image Single)
    (returned : grayscaleOf w r g b = .ok gray) : gray.WellFormed := by
  simp only [grayscaleOf, bind_eq_ok_iff] at returned
  obtain ⟨⟨format, red⟩, -, green, -, blue, -, computed⟩ := returned
  split at computed
  · exact Image.wellFormed_grayscale _ _ _ _ gray ((liftError_eq_ok_iff _ gray).mp computed)
  · cases computed

theorem runSwap_wellFormed (wf : w.WellFormed) (a b : String) (new : Workspace)
    (returned : runSwap w a b = .ok new) : new.WellFormed := by
  simp only [runSwap, bind_eq_ok_iff, pure_eq_ok_iff] at returned
  obtain ⟨first, foundFirst, second, foundSecond, rfl⟩ := returned
  have moved := wellFormed_insert w a second wf (w.wellFormed_get b second wf foundSecond)
  exact wellFormed_insert _ b first moved (w.wellFormed_get a first wf foundFirst)

theorem runTake_wellFormed (wf : w.WellFormed) (name : String) (new : Workspace)
    (returned : runTake w name = .ok new) : new.WellFormed := by
  simp only [runTake, bind_eq_ok_iff, pure_eq_ok_iff] at returned
  obtain ⟨found, -, rfl⟩ := returned
  exact wellFormed_insert w name _ wf Image.wellFormed_blank

/-- A command leaves well-formed images, whether it succeeds or fails on the way. -/
theorem run_wellFormed (wf : w.WellFormed) (command : Command) :
    (Command.run w command).state.WellFormed := by
  cases command with
  | create name f creation => exact runCreate_wellFormed w wf name creation
  | copy source name =>
    apply Outcome.ofExcept_induction _ _ _ wf
    intro new returned
    cases found : w.get source with
    | error failure =>
      rw [found] at returned
      cases returned
    | ok image =>
      rw [found] at returned
      cases returned
      exact wellFormed_insert w name image wf (w.wellFormed_get source image wf found)
  | edit name f change => exact runEdit_wellFormed w wf name change
  | splitComplex source re im =>
    exact Outcome.ofExcept_induction _ _ _ wf (runSplitComplex_wellFormed w wf source re im)
  | joinComplex name re im =>
    exact Outcome.ofExcept_induction _ _ _ wf (runJoinComplex_wellFormed w wf name re im)
  | splitRgba source r g b a =>
    exact Outcome.ofExcept_induction _ _ _ wf (runSplitRgba_wellFormed w wf source r g b a)
  | grayscale name r g b =>
    apply Outcome.ofExcept_induction _ _ _ wf
    intro new returned
    cases computed : grayscaleOf w r g b with
    | error failure =>
      rw [computed] at returned
      cases returned
    | ok gray =>
      rw [computed] at returned
      cases returned
      exact wellFormed_insert w name _ wf (grayscaleOf_wellFormed w r g b gray computed)
  | swap a b => exact Outcome.ofExcept_induction _ _ _ wf (runSwap_wellFormed w wf a b)
  | take name => exact Outcome.ofExcept_induction _ _ _ wf (runTake_wellFormed w wf name)

end Command

/-! ### Whole runs -/

namespace Workspace

theorem execute_preserves (commands : List Command) (w : Workspace) (wf : w.WellFormed) :
    (w.execute commands).WellFormed := by
  induction commands generalizing w with
  | nil => exact wf
  | cons command rest ih => exact ih _ (Command.run_wellFormed w wf command)

/-- After any run, every image has one visible item for each pixel of its size, lies inline exactly
if these are at most the inline capacity, and has nothing spare on the heap. -/
theorem execute_wellFormed (commands : List Command) :
    ∀ entry ∈ (empty.execute commands).images, entry.2.image.WellFormed :=
  execute_preserves commands empty wellFormed_empty

/-- From the heap back into the slots, with a write out of range in between. -/
def shrinkingRun : List Command :=
  [.create "a" .gray8 (.filled ⟨40, 40⟩ default), .edit "a" .gray8 (.set (.cell 40 0) default),
    .edit "a" .gray8 (.resize ⟨2, 3⟩ none)]

theorem execute_wellFormed_shrinkingRun :
    ("a", ⟨.gray8, ⟨2, 3, .filled 6 default⟩⟩) ∈ (empty.execute shrinkingRun).images ∧
      (⟨2, 3, .filled 6 default⟩ : Image (Pixel .gray8)).WellFormed :=
  ⟨.head _, execute_wellFormed shrinkingRun _ (.head _)⟩

end Workspace

end Raster
