import Raster.Proofs.Workspace.Run

/-!
# Reachable images and views

The images that runs from the empty workspace make are the reachable ones. They are exactly the
well-formed images: no run makes another, and every well-formed image has a run that makes it,
whatever its hidden slots hold. A reachable view is the last of a chain of windows onto a reachable
image.
-/

namespace Raster

namespace Workspace

theorem find?_insert_self (w : Workspace) (name : String) (image : AnyImage) :
    (w.insert name image).find? name = some image := by
  unfold insert find?
  rw [List.lookup_cons_self]

theorem getAs_of_find? (w : Workspace) (f : PixelFormat) (name : String) (img : Image (Pixel f))
    (found : w.find? name = some ⟨f, img⟩) : w.getAs f name = .ok img := by
  unfold getAs get
  rw [found]
  simp [bind, Except.bind, pure, Except.pure]

theorem find?_of_getAs (w : Workspace) (f : PixelFormat) (name : String) (img : Image (Pixel f))
    (returned : w.getAs f name = .ok img) : w.find? name = some ⟨f, img⟩ := by
  simp only [getAs, get, bind_eq_ok_iff] at returned
  obtain ⟨⟨format, image⟩, found, matched⟩ := returned
  split at found
  next named =>
    cases found
    split at matched
    next same =>
      cases same
      cases matched
      exact named
    next => cases matched
  next => cases found

theorem execute_append (w : Workspace) (commands rest : List Command) :
    w.execute (commands ++ rest) = (w.execute commands).execute rest :=
  List.foldl_append

end Workspace

namespace Storage

variable {α : Type} {capacity : Nat}

/-- As many items as slots leave no slot hidden. -/
theorem ofArray_toArray [Inhabited α] (slots : Vector α capacity) :
    ofArray slots.toArray = inline slots capacity (Nat.le_refl _) := by
  unfold ofArray
  rw [dif_pos (Nat.le_of_eq slots.size_toArray)]
  congr 1
  · apply Vector.toArray_inj.mp
    simp
  · exact slots.size_toArray

end Storage

variable {f : PixelFormat}

/-- Some run makes the image, under some name. -/
def Image.Reachable (img : Image (Pixel f)) : Prop :=
  ∃ commands name, (Workspace.empty.execute commands).find? name = some ⟨f, img⟩

/-- The view is the last of a chain of windows onto an image that some run makes. -/
def View.Reachable (v : View (Pixel f)) : Prop :=
  ∃ img : Image (Pixel f), img.Reachable ∧ ∃ rects, img.asView.subViews rects = .ok v

namespace Image

open Workspace

theorem Reachable.wellFormed {img : Image (Pixel f)} (reachable : img.Reachable) :
    img.WellFormed := by
  obtain ⟨commands, name, found⟩ := reachable
  exact execute_preserves commands _ wellFormed_empty (name, ⟨f, img⟩)
    (mem_of_find? _ name _ found)

/-- Storing pixels as an image of as many pixels is a run. -/
theorem reachable_ofArray (width height : UInt32) (pixels : Array (Pixel f))
    (enough : pixels.size = Size.area ⟨width, height⟩) :
    (⟨width, height, .ofArray pixels⟩ : Image (Pixel f)).Reachable := by
  refine ⟨[.create "a" f (.ofArray ⟨width, height⟩ pixels)], "a", ?_⟩
  have made : Creation.run (.ofArray ⟨width, height⟩ pixels) =
      .done (⟨width, height, .ofArray pixels⟩ : Image (Pixel f)) := by
    have accepted : ofArray width height pixels = .ok ⟨width, height, .ofArray pixels⟩ :=
      if_pos enough
    unfold Creation.run
    dsimp only
    rw [accepted]
    rfl
  have stored : Command.runCreate empty "a"
      (.ofArray ⟨width, height⟩ pixels : Creation SourceLeaf f) =
      .done (empty.insert "a" ⟨f, ⟨width, height, .ofArray pixels⟩⟩) := by
    simp only [Command.runCreate, Creation.mapM, pure, Except.pure, made]
    rfl
  simp only [execute, List.foldl_cons, List.foldl_nil, Command.run, stored]
  exact find?_insert_self _ _ _

/-- Six columns and four rows of levels that count up. -/
def ramp : Image (Pixel .gray8) :=
  ⟨6, 4, .ofArray ((List.range 24).map fun i => (Level.ofNat i : Level 8)).toArray⟩

theorem ramp_reachable : ramp.Reachable :=
  reachable_ofArray 6 4 _ rfl

theorem getElem?_ramp (i : Nat) (inside : i < 24) :
    ramp.data.toList[i]? = some (Level.ofNat i : Level 8) := by
  have items := @Storage.toList_ofArray (Pixel .gray8) inlineCapacity _
    ((List.range 24).map fun i => (Level.ofNat i : Level 8)).toArray
  have level : ((List.range 24).map fun i => (Level.ofNat i : Level 8)).toArray.toList[i]? =
      some (Level.ofNat i) := by simp [inside]
  exact (congrArg (·[i]?) items).trans level

/-- A change of size continues a run. -/
theorem Reachable.resize {img : Image (Pixel f)} (reachable : img.Reachable) (size : Size)
    (fill : Option (Pixel f)) : (img.resize size fill).1.Reachable := by
  obtain ⟨commands, name, found⟩ := reachable
  refine ⟨commands ++ [.edit name f (.resize size fill)], name, ?_⟩
  rw [execute_append]
  have changed : (Command.runEdit (empty.execute commands) name
      (.resize size fill : Edit SourceLeaf f)).state =
      (empty.execute commands).insert name ⟨f, (img.resize size fill).1⟩ := by
    simp only [Command.runEdit, Edit.mapM, pure, Except.pure, getAs_of_find? _ f name img found]
    rfl
  simp only [execute, List.foldl_cons, List.foldl_nil, Command.run] at changed ⊢
  rw [changed]
  exact find?_insert_self _ _ _

/-- The reachable images are the well-formed ones. Hidden slots can hold anything: all slots are
stored as pixels first, and a change of size then hides what exceeds the image. -/
theorem reachable_iff_wellFormed (img : Image (Pixel f)) : img.Reachable ↔ img.WellFormed := by
  constructor
  · exact Reachable.wellFormed
  · intro wf
    obtain ⟨width, height, storage⟩ := img
    cases storage with
    | heap items =>
      -- Nothing is hidden on the heap.
      have outside : ¬items.size ≤ inlineCapacity := by
        intro inside
        have selected := wf.isInline_iff.mpr (wf.size_of_heap items rfl ▸ inside)
        simp [isInline, Storage.isInline, Storage.kind] at selected
      have made := reachable_ofArray width height items (wf.size_of_heap items rfl)
      rwa [Storage.ofArray, dif_neg outside] at made
    | inline slots n fits =>
      have length : n = Size.area ⟨width, height⟩ := wf.length_data
      have filled := reachable_ofArray 1024 1 slots.toArray (slots.size_toArray.trans rfl)
      rw [Storage.ofArray_toArray] at filled
      -- A change of size to the size that is there does nothing, so that case is a run already.
      by_cases same : (⟨width, height⟩ : Size) = ⟨1024, 1⟩
      · cases same
        obtain rfl : n = inlineCapacity := length
        exact filled
      · have hidden := filled.resize ⟨width, height⟩ none
        have inside : Size.area ⟨width, height⟩ ≤ inlineCapacity := length ▸ fits
        simp only [resize, size, if_neg same, Storage.setLength, dif_pos inside] at hidden
        simpa only [length] using hidden

end Image

end Raster
