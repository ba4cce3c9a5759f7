import Mathlib.Data.List.Forall2
import Raster.Proofs.Expr.Sources
import Raster.Proofs.Image.Visible

/-!
# Runs that differ in hidden slots

Two workspaces are alike if each name stands in both for images that cannot be told apart. One
command told to both gives the same records and the same failure, and leaves workspaces that are
alike again, unless it makes an image show slots that were hidden. So whole runs that never do that
give the same at every step, whatever histories the images had before.
-/

namespace Raster

/-- The images have one format and cannot be told apart. -/
inductive AnyImage.SameVisible : AnyImage → AnyImage → Prop where
  | of {f : PixelFormat} {a b : Image (Pixel f)} (same : a.SameVisible b) :
    SameVisible ⟨f, a⟩ ⟨f, b⟩

theorem AnyImage.SameVisible.refl (image : AnyImage) : image.SameVisible image :=
  .of (.refl image.image)

namespace Workspace

/-- Every name stands for no image in both workspaces, or for images that cannot be told apart. -/
def Alike (w v : Workspace) : Prop :=
  ∀ name, Option.Rel AnyImage.SameVisible (w.find? name) (v.find? name)

theorem find?_insert_of_ne (w : Workspace) (name other : String) (image : AnyImage)
    (different : other ≠ name) : (w.insert name image).find? other = w.find? other := by
  have unequal : (other == name) = false := beq_eq_false_iff_ne.mpr different
  simp only [insert, find?, List.lookup_cons, unequal]
  induction w.images with
  | nil => rfl
  | cons entry rest ih =>
    obtain ⟨key, value⟩ := entry
    -- An entry that the insertion drops has the inserted name, which is not the one asked for.
    by_cases dropped : key = name
    · subst dropped
      simpa [List.lookup_cons, unequal] using ih
    · simp only [List.filter_cons, bne_iff_ne.mpr dropped, if_true, List.lookup_cons, ih]

namespace Alike

variable {w v : Workspace}

theorem refl (w : Workspace) : w.Alike w := by
  intro name
  cases w.find? name with
  | none => exact .none
  | some image => exact .some (.refl image)

theorem insert (alike : w.Alike v) (name : String) {image other : AnyImage}
    (same : image.SameVisible other) : (w.insert name image).Alike (v.insert name other) := by
  intro asked
  by_cases renewed : asked = name
  · subst renewed
    rw [find?_insert_self, find?_insert_self]
    exact .some same
  · rw [find?_insert_of_ne _ _ _ _ renewed, find?_insert_of_ne _ _ _ _ renewed]
    exact alike asked

/-! ### What is found -/

theorem get (alike : w.Alike v) (name : String) :
    Agree AnyImage.SameVisible (w.get name) (v.get name) := by
  have found := alike name
  unfold Workspace.get
  generalize w.find? name = x, v.find? name = y at found
  cases found with
  | none => exact .error _
  | some same => exact .ok same

theorem getAs (alike : w.Alike v) (f : PixelFormat) (name : String) :
    Agree Image.SameVisible (w.getAs f name) (v.getAs f name) := by
  apply (alike.get name).bind
  rintro _ _ ⟨same⟩
  dsimp only
  split
  next format =>
    subst format
    exact .ok same
  next => exact .error _

theorem viewAs (alike : w.Alike v) {f : PixelFormat} (source : SourceLeaf f) :
    Agree (fun shown other => shown.compact = other.compact) (w.viewAs source (f := f))
      (v.viewAs source (f := f)) := by
  apply (alike.getAs f source.image).bind
  intro a b same
  exact View.subViews_agree _ _ same.asView_compact_eq source.windows

end Alike

end Workspace

/-! ### Edits that are found -/

namespace Edit

variable {Leaf : PixelFormat → Type} {f : PixelFormat}
  (find : {g : PixelFormat} → Leaf g → Except Failure (ViewLeaf g))

/-- The property holds of every view that the edit reads. -/
def ForallViews (property : (g : PixelFormat) × Leaf g → Prop) : Edit Leaf f → Prop
  | assign e => ∀ l ∈ e.leaves, property l
  | update e => ∀ h (source : Leaf h), ⟨h, .other source⟩ ∈ e.leaves → property ⟨h, source⟩
  | assignConverted _ source => property ⟨_, source⟩
  | _ => True

/-- What holds of everything that can be found holds of all views that an edit reads once these are
found. -/
theorem forallViews_of_mapM (property : (g : PixelFormat) × ViewLeaf g → Prop)
    (holds : ∀ {g : PixelFormat} (source : Leaf g) (v : ViewLeaf g), find source = .ok v →
      property ⟨g, v⟩) (change : Edit Leaf f) (found : Edit ViewLeaf f)
    (returned : change.mapM find = .ok found) : found.ForallViews property := by
  cases change with
  | assign e =>
    simp only [mapM, bind_eq_ok_iff, pure_eq_ok_iff] at returned
    obtain ⟨found, finds, rfl⟩ := returned
    exact e.forall_leaves_of_mapM find property holds found finds
  | update e =>
    simp only [mapM, bind_eq_ok_iff, pure_eq_ok_iff] at returned
    obtain ⟨found, finds, rfl⟩ := returned
    have others := e.forall_leaves_of_mapM (WithSelf.mapM find)
      (fun l => ∀ v, l.2 = .other v → property ⟨l.1, v⟩) ?_ found finds
    · exact fun h v member => others ⟨h, .other v⟩ member v rfl
    · -- The image itself is found as itself, so it is not among the views.
      intro g source resolved finds v shown
      cases source with
      | self =>
        cases finds
        cases shown
      | other source =>
        simp only [WithSelf.mapM, bind_eq_ok_iff, pure_eq_ok_iff] at finds
        obtain ⟨view, finds, rfl⟩ := finds
        cases shown
        exact holds source view finds
  | assignConverted conversion source =>
    simp only [mapM, bind_eq_ok_iff, pure_eq_ok_iff] at returned
    obtain ⟨v, finds, rfl⟩ := returned
    exact holds source v finds
  | _ =>
    cases returned
    trivial

theorem ForallViews.replacements {property : (g : PixelFormat) × Leaf g → Prop}
    {change : Edit Leaf f} (holds : change.ForallViews property) :
    ∀ l ∈ change.replacements, property l := by
  cases change with
  | assign e => exact holds
  | assignConverted conversion source => simpa [Edit.replacements, ForallViews] using holds
  | _ => simp [Edit.replacements]

/-- What an edit finds does not make it show hidden slots. -/
theorem exposes_of_mapM (img : Image (Pixel f)) (change : Edit Leaf f) (found : Edit ViewLeaf f)
    (returned : change.mapM find = .ok found) (exposes : found.Exposes img) :
    change.Exposes img := by
  -- Only a change of size exposes anything, and it is found as it is.
  cases found with
  | resize size value =>
    cases change with
    | resize =>
      cases returned
      cases value <;> exact exposes
    | assign | update | assignConverted =>
      simp only [mapM, bind_eq_ok_iff, pure_eq_ok_iff, reduceCtorEq, and_false,
        exists_false] at returned
    | _ => cases returned
  | _ => exact exposes.elim

end Edit

/-! ### One command -/

theorem Workspace.wellFormed_viewAs (w : Workspace) (wf : w.WellFormed) {f : PixelFormat}
    (source : SourceLeaf f) (v : ViewLeaf f) (returned : w.viewAs source = .ok v) :
    v.WellFormed := by
  simp only [viewAs, bind_eq_ok_iff] at returned
  obtain ⟨img, found, windows⟩ := returned
  have imgWf := w.wellFormed_getAs f source.image img wf found
  exact (View.isWindowOf_of_subViews _ _ v imgWf.asView windows).2.wellFormed

namespace Command

open Workspace

variable {w v : Workspace}

/-- The command is an edit that makes the image it names show slots that the image hides. -/
def Exposes (w : Workspace) : Command → Prop
  | edit name f change => ∃ img, w.getAs f name = .ok img ∧ change.Exposes img
  | _ => False

theorem runCreate_alike (alike : w.Alike v) (name : String) {f : PixelFormat}
    (creation : Creation SourceLeaf f) :
    (runCreate w name creation).Alike Workspace.Alike (runCreate v name creation) := by
  have found := creation.mapM_agree w.viewAs v.viewAs alike.viewAs
  unfold runCreate
  generalize creation.mapM w.viewAs = x, creation.mapM v.viewAs = y at found
  cases found with
  | error failure => exact Outcome.alike_failed alike failure
  | @ok made other same =>
    dsimp only
    rw [same]
    split
    · exact ⟨alike.insert name (.refl _), rfl, rfl⟩
    · exact ⟨alike, rfl, rfl⟩

theorem runEdit_alike (alike : w.Alike v) (wfW : w.WellFormed) (wfV : v.WellFormed)
    (name : String) {f : PixelFormat} (change : Edit SourceLeaf f)
    (hidden : ¬(edit name f change).Exposes w) :
    (runEdit w name change).Alike Workspace.Alike (runEdit v name change) := by
  have changes := change.mapM_agree w.viewAs v.viewAs alike.viewAs
  have images := alike.getAs f name
  unfold runEdit
  cases resolved : change.mapM w.viewAs with
  | error failure =>
    rw [resolved] at changes
    rw [changes.error_inv]
    exact Outcome.alike_failed alike failure
  | ok found =>
    rw [resolved] at changes
    obtain ⟨other, resolvedToo, same⟩ := changes.ok_inv
    rw [resolvedToo]
    cases named : w.getAs f name with
    | error failure =>
      rw [named] at images
      rw [images.error_inv]
      exact Outcome.alike_failed alike failure
    | ok a =>
      rw [named] at images
      obtain ⟨b, namedToo, visible⟩ := images.ok_inv
      rw [namedToo]
      have sources := (change.forallViews_of_mapM w.viewAs (fun l => l.2.WellFormed)
        (w.wellFormed_viewAs wfW) found resolved).replacements
      -- What was found is the edit itself over views, and it changes the same image.
      have kept : ¬found.Exposes a := fun exposes =>
        hidden ⟨a, named, change.exposes_of_mapM w.viewAs a found resolved exposes⟩
      have changed := Edit.run_alike visible (w.wellFormed_getAs f name a wfW named)
        (v.wellFormed_getAs f name b wfV namedToo) found sources kept
      dsimp only
      rw [← same b]
      exact changed.map fun _ _ newVisible => alike.insert name (.of newVisible)

theorem runSplitComplex_alike (alike : w.Alike v) (source re im : String) :
    Agree Workspace.Alike (runSplitComplex w source re im) (runSplitComplex v source re im) := by
  apply (alike.getAs _ source).bind
  intro a b same
  have parts : Image.splitComplex a = Image.splitComplex b := Image.SameVisible.splitComplex_eq same
  rw [parts]
  exact .ok ((alike.insert re (.refl _)).insert im (.refl _))

theorem runJoinComplex_alike (alike : w.Alike v) (name re im : String) :
    Agree Workspace.Alike (runJoinComplex w name re im) (runJoinComplex v name re im) := by
  apply (alike.getAs _ re).bind
  intro reals otherReals sameReals
  apply (alike.getAs _ im).bind
  intro imaginaries otherImaginaries sameImaginaries
  rw [sameReals.joinComplex_eq sameImaginaries]
  cases Image.joinComplex otherReals otherImaginaries with
  | error refusal => exact .error _
  | ok joined => exact .ok (alike.insert name (.refl _))

theorem runSplitRgba_alike (alike : w.Alike v) (source r g b a : String) :
    Agree Workspace.Alike (runSplitRgba w source r g b a) (runSplitRgba v source r g b a) := by
  apply (alike.getAs _ source).bind
  intro img other same
  have parts : Image.splitRgba img = Image.splitRgba other := Image.SameVisible.splitRgba_eq same
  rw [parts]
  exact .ok ((((alike.insert r (.refl _)).insert g (.refl _)).insert b (.refl _)).insert a (.refl _))

theorem grayscaleOf_eq (alike : w.Alike v) (r g b : String) :
    grayscaleOf w r g b = grayscaleOf v r g b := by
  apply (alike.get r).bind_eq
  rintro _ _ ⟨reds⟩
  apply (alike.getAs _ g).bind_eq
  intro _ _ greens
  apply (alike.getAs _ b).bind_eq
  intro _ _ blues
  simp only [reds.grayscale_eq greens blues]

theorem runSwap_alike (alike : w.Alike v) (a b : String) :
    Agree Workspace.Alike (runSwap w a b) (runSwap v a b) := by
  apply (alike.get a).bind
  intro first otherFirst sameFirst
  apply (alike.get b).bind
  intro second otherSecond sameSecond
  exact .ok ((alike.insert a sameSecond).insert b sameFirst)

theorem runTake_alike (alike : w.Alike v) (name : String) :
    Agree Workspace.Alike (runTake w name) (runTake v name) := by
  apply (alike.get name).bind
  rintro _ _ ⟨same⟩
  exact .ok (alike.insert name (.refl _))

/-- One command does the same to workspaces that are alike, whether it succeeds or not. -/
theorem run_alike (alike : w.Alike v) (wfW : w.WellFormed) (wfV : v.WellFormed)
    (command : Command) (hidden : ¬command.Exposes w) :
    (Command.run w command).Alike Workspace.Alike (Command.run v command) := by
  cases command with
  | create name f creation => exact runCreate_alike alike name creation
  | copy source name =>
    apply Outcome.alike_ofExcept alike
    exact (alike.get source).map fun _ _ same => alike.insert name same
  | edit name f change => exact runEdit_alike alike wfW wfV name change hidden
  | splitComplex source re im =>
    exact Outcome.alike_ofExcept alike (runSplitComplex_alike alike source re im)
  | joinComplex name re im =>
    exact Outcome.alike_ofExcept alike (runJoinComplex_alike alike name re im)
  | splitRgba source r g b a =>
    exact Outcome.alike_ofExcept alike (runSplitRgba_alike alike source r g b a)
  | grayscale name r g b =>
    apply Outcome.alike_ofExcept alike
    rw [grayscaleOf_eq alike]
    cases grayscaleOf v r g b with
    | error failure => exact .error failure
    | ok img => exact .ok (alike.insert name (.refl _))
  | swap a b => exact Outcome.alike_ofExcept alike (runSwap_alike alike a b)
  | take name => exact Outcome.alike_ofExcept alike (runTake_alike alike name)

end Command

/-! ### Whole runs -/

namespace Workspace

/-- The outcomes of the commands of a run, in order. -/
def outcomes (w : Workspace) : List Command → List (Outcome Workspace)
  | [] => []
  | command :: rest =>
    Command.run w command :: (Command.run w command).state.outcomes rest

/-- At some step the run makes an image show slots that it hides. -/
def Exposes (w : Workspace) : List Command → Prop
  | [] => False
  | command :: rest => command.Exposes w ∨ (Command.run w command).state.Exposes rest

theorem outcomes_alike (commands : List Command) (w v : Workspace) (alike : w.Alike v)
    (wfW : w.WellFormed) (wfV : v.WellFormed) (hidden : ¬w.Exposes commands) :
    List.Forall₂ (Outcome.Alike Alike) (w.outcomes commands) (v.outcomes commands) := by
  induction commands generalizing w v with
  | nil => exact .nil
  | cons command rest ih =>
    obtain ⟨notHere, notLater⟩ := not_or.mp hidden
    have step := Command.run_alike alike wfW wfV command notHere
    exact .cons step (ih _ _ step.state (Command.run_wellFormed w wfW command)
      (Command.run_wellFormed v wfV command) notLater)

/-- Some run from the empty workspace leaves the workspace. -/
def Reachable (w : Workspace) : Prop :=
  ∃ history, w = empty.execute history

theorem Reachable.wellFormed {w : Workspace} (reachable : w.Reachable) : w.WellFormed := by
  obtain ⟨history, rfl⟩ := reachable
  exact execute_preserves history empty wellFormed_empty

/-- No run can tell equal images apart whose hidden slots differ, unless it makes an inline image
show more of its slots and gives no fill: at every step it tells the same, ends in the same way, and
leaves the same sizes, kinds of storage and pixels. -/
theorem outcomes_alike_of_beq (w : Workspace) (reachable : w.Reachable) (name : String)
    {f : PixelFormat} (a b : Image (Pixel f)) (madeA : a.Reachable) (madeB : b.Reachable)
    (equal : (a == b) = true) (commands : List Command)
    (hidden : ¬(w.insert name ⟨f, a⟩).Exposes commands) :
    List.Forall₂ (Outcome.Alike Alike) ((w.insert name ⟨f, a⟩).outcomes commands)
      ((w.insert name ⟨f, b⟩).outcomes commands) := by
  have wf := reachable.wellFormed
  have same := (Image.sameVisible_iff_beq madeA.wellFormed madeB.wellFormed).mp equal
  exact outcomes_alike commands _ _ ((Alike.refl w).insert name (.of same))
    (wellFormed_insert w name ⟨f, a⟩ wf madeA.wellFormed)
    (wellFormed_insert w name ⟨f, b⟩ wf madeB.wellFormed) hidden

/-- Four pixels whose storage never held anything else. -/
def plainFour : Image (Pixel .gray8) :=
  .filled 2 2 (Level.ofNat 7 : Level 8)

/-- The same four pixels, with others behind them that a larger image left. -/
def layeredFour : Image (Pixel .gray8) :=
  ((Image.filled 3 3 (Level.ofNat 9 : Level 8)).resize ⟨2, 2⟩ (some (Level.ofNat 7 : Level 8))).1

/-- A smaller size, evaluation of a wider image, which shows slots again, a larger size with a
fill, and one without a fill that is too large for the slots. -/
def growingRun : List Command :=
  [.edit "a" .gray8 (.resize ⟨1, 1⟩ none), .edit "a" .gray8 (.assign (.leaf ⟨"wide", []⟩)),
    .edit "a" .gray8 (.set (.linear 9) (Level.ofNat 1 : Level 8)),
    .edit "a" .gray8 (.resize ⟨4, 4⟩ (some (Level.ofNat 2 : Level 8))),
    .edit "a" .gray8 (.resize ⟨40, 40⟩ none)]

theorem outcomes_alike_of_beq_growingRun :
    ∃ w : Workspace, w.Reachable ∧ plainFour.Reachable ∧ layeredFour.Reachable ∧
      (plainFour == layeredFour) = true ∧
      ¬(w.insert "a" ⟨.gray8, plainFour⟩).Exposes growingRun ∧
      List.Forall₂ (Outcome.Alike Alike) ((w.insert "a" ⟨.gray8, plainFour⟩).outcomes growingRun)
        ((w.insert "a" ⟨.gray8, layeredFour⟩).outcomes growingRun) := by
  let wide : Command := .create "wide" .gray8 (.filled ⟨5, 1⟩ (Level.ofNat 3 : Level 8))
  have reachable : (empty.execute [wide]).Reachable := ⟨[wide], rfl⟩
  have plain : plainFour.Reachable :=
    (Image.reachable_iff_wellFormed _).mpr (Image.wellFormed_filled _ _ _)
  have layered : layeredFour.Reachable :=
    (Image.reachable_iff_wellFormed _).mpr
      (Image.wellFormed_resize (Image.wellFormed_filled _ _ _) _ _)
  have equal : (plainFour == layeredFour) = true :=
    (Image.sameVisible_iff_beq plain.wellFormed layered.wellFormed).mpr
      (Image.SameVisible.resize_some (Image.wellFormed_filled _ _ _) ⟨2, 2⟩ _ (by decide))
  have hidden : ¬((empty.execute [wide]).insert "a" ⟨.gray8, plainFour⟩).Exposes growingRun := by
    have found := getAs_of_find? _ .gray8 "a" plainFour
      (find?_insert_self (empty.execute [wide]) "a" ⟨.gray8, plainFour⟩)
    rintro (⟨img, named, -, larger, -⟩ | ⟨_, -, ⟨⟩⟩ | ⟨_, -, ⟨⟩⟩ | ⟨_, -, ⟨⟩⟩ | ⟨_, -, -, -, inside⟩ |
      ⟨⟨⟩⟩)
    · cases found.symm.trans named
      exact absurd larger (by decide)
    · exact absurd inside (by decide)
  exact ⟨_, reachable, plain, layered, equal, hidden,
    outcomes_alike_of_beq _ reachable "a" plainFour layeredFour plain layered equal growingRun hidden⟩

end Workspace

end Raster
