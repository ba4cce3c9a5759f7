import Raster.Proofs.Expr.Totality
import Raster.Proofs.Workspace.Visible

/-!
# Failed commands

A command that fails leaves every image as it was, down to the slots that are hidden behind its
pixels. Commands find images by their names only, so the commands after a failed one do what they
would have done without it. Evaluations are refused exactly where sizes disagree, and fail in no
other way.
-/

namespace Raster

/-! ### Workspaces that hold the same -/

namespace Workspace

/-- Every name stands for the same image in both workspaces, hidden slots included, or for none. -/
def Same (w v : Workspace) : Prop :=
  ∀ name, w.find? name = v.find? name

namespace Same

variable {w v : Workspace}

theorem refl (w : Workspace) : w.Same w :=
  fun _ => rfl

theorem insert (same : w.Same v) (name : String) (image : AnyImage) :
    (w.insert name image).Same (v.insert name image) := by
  intro asked
  by_cases renewed : asked = name
  · subst renewed
    rw [find?_insert_self, find?_insert_self]
  · rw [find?_insert_of_ne _ _ _ _ renewed, find?_insert_of_ne _ _ _ _ renewed]
    exact same asked

/-- To give a name the image that it stands for changes nothing. -/
theorem insert_found (w : Workspace) (name : String) (image : AnyImage)
    (found : w.find? name = some image) : (w.insert name image).Same w := by
  intro asked
  by_cases renewed : asked = name
  · subst renewed
    rw [find?_insert_self, found]
  · exact find?_insert_of_ne _ _ _ _ renewed

theorem get_eq (same : w.Same v) : w.get = v.get := by
  funext name
  simp only [get, same name]

theorem getAs_eq (same : w.Same v) : w.getAs = v.getAs := by
  funext f name
  simp only [getAs, same.get_eq]

theorem viewAs_eq (same : w.Same v) (f : PixelFormat) :
    w.viewAs (f := f) = v.viewAs := by
  funext source
  simp only [viewAs, same.getAs_eq]

end Same

end Workspace

/-! ### Commands see names only -/

namespace Command

open Workspace

variable {w v : Workspace}

theorem runCreate_same (same : w.Same v) (name : String) {f : PixelFormat}
    (creation : Creation SourceLeaf f) :
    (runCreate w name creation).Alike Same (runCreate v name creation) := by
  simp only [runCreate, same.viewAs_eq]
  split
  · exact Outcome.alike_failed same _
  · split
    · exact ⟨same.insert name _, rfl, rfl⟩
    · exact ⟨same, rfl, rfl⟩

theorem runEdit_same (same : w.Same v) (name : String) {f : PixelFormat}
    (change : Edit SourceLeaf f) :
    (runEdit w name change).Alike Same (runEdit v name change) := by
  simp only [runEdit, same.viewAs_eq, same.getAs_eq]
  split
  · exact ⟨same.insert name _, rfl, rfl⟩
  · exact Outcome.alike_failed same _
  · exact Outcome.alike_failed same _

/-- A command does the same in workspaces that hold the same. -/
theorem run_same (same : w.Same v) (command : Command) :
    (Command.run w command).Alike Same (Command.run v command) := by
  -- What a command reads is equal in both, so it stores equal images under its names.
  cases command with
  | create name f creation => exact runCreate_same same name creation
  | copy source name =>
    apply Outcome.alike_ofExcept same
    rw [same.get_eq]
    cases v.get source with
    | error failure => exact .error failure
    | ok image => exact .ok (same.insert name image)
  | edit name f change => exact runEdit_same same name change
  | splitComplex source re im =>
    apply Outcome.alike_ofExcept same
    simp only [runSplitComplex, same.getAs_eq]
    exact .bind_self _ fun _ => .ok ((same.insert re _).insert im _)
  | joinComplex name re im =>
    apply Outcome.alike_ofExcept same
    simp only [runJoinComplex, same.getAs_eq]
    exact .bind_self _ fun _ => .bind_self _ fun _ => .bind_self _ fun _ => .ok (same.insert name _)
  | splitRgba source r g b a =>
    apply Outcome.alike_ofExcept same
    simp only [runSplitRgba, same.getAs_eq]
    exact .bind_self _ fun _ =>
      .ok ((((same.insert r _).insert g _).insert b _).insert a _)
  | grayscale name r g b =>
    have computed : grayscaleOf w r g b = grayscaleOf v r g b := by
      simp only [grayscaleOf, same.get_eq, same.getAs_eq]
    apply Outcome.alike_ofExcept same
    rw [computed]
    cases grayscaleOf v r g b with
    | error failure => exact .error failure
    | ok gray => exact .ok (same.insert name _)
  | swap a b =>
    apply Outcome.alike_ofExcept same
    simp only [runSwap, same.get_eq]
    exact .bind_self _ fun _ => .bind_self _ fun _ => .ok ((same.insert a _).insert b _)
  | take name =>
    apply Outcome.alike_ofExcept same
    simp only [runTake, same.get_eq]
    exact .bind_self _ fun _ => .ok (same.insert name _)

end Command

theorem Workspace.outcomes_same (commands : List Command) (w v : Workspace) (same : w.Same v) :
    List.Forall₂ (Outcome.Alike Same) (w.outcomes commands) (v.outcomes commands) := by
  -- Each command leaves workspaces that hold the same, from which the rest starts.
  induction commands generalizing w v with
  | nil => exact .nil
  | cons command rest ih =>
    have step := Command.run_same same command
    exact .cons step (ih _ _ step.state)

/-! ### Failed edits -/

namespace Edit

variable {f : PixelFormat}

/-- An edit that fails leaves the image as it was. -/
theorem state_run_of_failed (img : Image (Pixel f)) (wf : img.WellFormed)
    (change : Edit ViewLeaf f) (sources : change.ForallViews fun l => l.2.WellFormed)
    (failed : (change.run img).failure ≠ none) : (change.run img).state = img := by
  -- Evaluations are refused before they write, and positions are checked before a pixel is stored.
  cases change with
  | assign e =>
    rcases img.assign_allOrNothing wf e sources with ⟨refusal, refused⟩ | ⟨success, -⟩
    · exact congrArg Outcome.state refused
    · exact absurd success failed
  | update e =>
    rcases img.update_allOrNothing wf e sources with ⟨refusal, refused⟩ | ⟨success, -⟩
    · exact congrArg Outcome.state refused
    · exact absurd success failed
  | assignConverted conversion source =>
    exact absurd (img.assignConverted_writes wf conversion source sources).1 failed
  | resize size value => exact absurd rfl failed
  | set position value => exact Outcome.state_ofExcept_of_failed _ _ failed
  | setInLine y x value => exact Outcome.state_ofExcept_of_failed _ _ failed
  | applyLine y rule => exact Outcome.state_ofExcept_of_failed _ _ failed
  | fill value => exact absurd rfl failed
  | apply rule => exact absurd rfl failed

end Edit

/-! ### Failed commands -/

namespace Command

open Workspace

theorem runCreate_of_failed (w : Workspace) (name : String) {f : PixelFormat}
    (creation : Creation SourceLeaf f) (failed : (runCreate w name creation).failure ≠ none) :
    (runCreate w name creation).state = w := by
  unfold runCreate at failed ⊢
  split at failed
  · rfl
  · dsimp only at failed ⊢
    split at failed
    next success => exact absurd (Option.isNone_iff_eq_none.mp success) failed
    next made => rw [if_neg made]; rfl

theorem runEdit_of_failed (w : Workspace) (wf : w.WellFormed) (name : String) {f : PixelFormat}
    (change : Edit SourceLeaf f) (failed : (runEdit w name change).failure ≠ none) :
    (runEdit w name change).state.Same w := by
  unfold runEdit at failed ⊢
  cases resolved : change.mapM w.viewAs with
  | error failure => exact .refl w
  | ok found =>
    cases named : w.getAs f name with
    | error failure => exact .refl w
    | ok img =>
      simp only [resolved, named] at failed ⊢
      have sources := change.forallViews_of_mapM w.viewAs (fun l => l.2.WellFormed)
        (w.wellFormed_viewAs wf) found resolved
      have imgWf := w.wellFormed_getAs f name img wf named
      have kept := found.state_run_of_failed img imgWf sources failed
      -- The image is stored again, under the name that it was found under.
      simp only [Outcome.map, kept]
      exact .insert_found w name ⟨f, img⟩ (w.find?_of_getAs f name img named)

/-- A command that fails leaves every name with the image it had. -/
theorem run_of_failed (w : Workspace) (wf : w.WellFormed) (command : Command)
    (failed : (Command.run w command).failure ≠ none) : (Command.run w command).state.Same w := by
  -- Only edits store anything when they fail: the image that they found.
  cases command with
  | create name f creation =>
    have kept : (Command.run w (.create name f creation)).state = w :=
      runCreate_of_failed w name creation failed
    rw [kept]
    exact .refl w
  | edit name f change => exact runEdit_of_failed w wf name change failed
  | copy | splitComplex | joinComplex | splitRgba | grayscale | swap | take =>
    simp only [Command.run, Outcome.state_ofExcept_of_failed w _ failed]
    exact .refl w

end Command

/-! ### Refused evaluations -/

/-- The operation is refused, and has changed nothing, exactly on the condition. Otherwise it
succeeds. -/
structure Outcome.RefusedIff {State : Type} (old : State) (outcome : Outcome State)
    (condition : Prop) : Prop where
  refused_iff : (∃ refusal, outcome = .failed old (.error refusal)) ↔ condition
  failure_eq_none_iff : outcome.failure = none ↔ ¬condition

namespace Image

variable {f : PixelFormat}

theorem AllOrNothing.refusedIff {old : Image (Pixel f)} {value : Nat → Except Fault (Pixel f)}
    {outcome : Outcome (Image (Pixel f))} (total : old.AllOrNothing value outcome)
    {condition : Prop}
    (refused_iff : (∃ refusal, outcome = .failed old (.error refusal)) ↔ condition) :
    Outcome.RefusedIff old outcome condition where
  refused_iff := refused_iff
  failure_eq_none_iff := by
    rw [← refused_iff]
    constructor
    · rintro success ⟨refusal, rfl⟩
      cases success
    · intro accepted
      rcases total with refused | ⟨success, -⟩
      · exact absurd refused accepted
      · exact success

/-- Evaluation is refused exactly if two views differ in size, and an update exactly if a leaf differs
from the image. Neither fails in another way, and what is refused changes nothing. After a command
that fails, for this or any other reason, all commands do what they would have done without it. -/
theorem evaluation_refused_iff (img : Image (Pixel f)) (reachable : img.Reachable) :
    (∀ e : Expr ViewLeaf f, (∀ l ∈ e.leaves, View.Reachable l.2) →
      Outcome.RefusedIff img (img.assign e)
        (∃ l ∈ e.leaves, ∃ m ∈ e.leaves, l.2.size ≠ m.2.size) ∧
      Outcome.RefusedIff blank (ofExpr e)
        (∃ l ∈ e.leaves, ∃ m ∈ e.leaves, l.2.size ≠ m.2.size)) ∧
    (∀ e : Expr (WithSelf f ViewLeaf) f,
      (∀ h (v : View (Pixel h)), ⟨h, .other v⟩ ∈ e.leaves → v.Reachable) →
        Outcome.RefusedIff img (img.update e)
          (∃ l ∈ e.leaves, l.2.sizeOf img.size ≠ img.size) ∧
        ∀ size ≠ img.size, e.leaves ≠ [] → (∀ l ∈ e.leaves, l.2.sizeOf img.size = size) →
          img.update e = .failed img (.error (.geometryMismatch img.size size))) ∧
    ∀ w : Workspace, w.Reachable → ∀ command, (Command.run w command).failure ≠ none →
      ∀ rest, List.Forall₂ (Outcome.Alike Workspace.Same)
        ((Command.run w command).state.outcomes rest) (w.outcomes rest) := by
  have wf := reachable.wellFormed
  refine ⟨fun e sources => ?_, fun e sources => ?_, fun w made command failed rest => ?_⟩
  · have sourcesWf (l) (member : l ∈ e.leaves) : l.2.WellFormed := (sources l member).wellFormed
    exact ⟨(img.assign_allOrNothing wf e sourcesWf).refusedIff (img.assign_refused_iff e),
      (blank.assign_allOrNothing wellFormed_blank e sourcesWf).refusedIff
        (blank.assign_refused_iff e)⟩
  · have total := img.update_allOrNothing wf e fun h v member => (sources h v member).wellFormed
    refine ⟨total.refusedIff (img.update_refused_iff e), fun size different views agree => ?_⟩
    apply img.update_of_refused e
    exact checkSize_of_other img.size size e different views agree
  · have kept := Command.run_of_failed w made.wellFormed command failed
    exact Workspace.outcomes_same rest _ _ kept

/-- Two images of six pixels each, but of different shapes. -/
def sixPixels : List Command :=
  [.create "tall" .gray8 (.filled ⟨2, 3⟩ (Level.ofNat 5 : Level 8)),
    .create "wide" .gray8 (.filled ⟨3, 2⟩ (Level.ofNat 9 : Level 8))]

/-- The sum of the two, which is refused. -/
def addShapes : Command :=
  .edit "tall" .gray8 (.assign (.binary .plus (.leaf ⟨"tall", []⟩) (.leaf ⟨"wide", []⟩)))

/-- Windows of as many pixels but of different shapes, one of them also as the only view of an update,
and a run that goes on after a refused assignment, with a change of size that shows hidden slots. -/
theorem evaluation_refused_iff_sixPixels :
    ramp.Reachable ∧ ∃ tall wide : View (Pixel .gray8),
      ramp.asView.subViews [⟨⟨1, 0⟩, ⟨2, 3⟩⟩] = .ok tall ∧
      ramp.asView.subViews [⟨⟨0, 2⟩, ⟨3, 2⟩⟩] = .ok wide ∧
      (∃ refusal, ramp.assign (.binary .plus (.leaf tall) (.leaf wide)) =
        .failed ramp (.error refusal)) ∧
      (ramp.assign (.binary .plus (.leaf tall) (.leaf tall))).failure = none ∧
      ramp.update (.leaf (.other wide)) =
        .failed ramp (.error (.geometryMismatch ⟨6, 4⟩ ⟨3, 2⟩)) ∧
      (Command.run (Workspace.empty.execute sixPixels) addShapes).failure ≠ none ∧
      let rest : List Command := [.edit "tall" .gray8 (.resize ⟨5, 5⟩ none), addShapes]
      List.Forall₂ (Outcome.Alike Workspace.Same)
        ((Command.run (Workspace.empty.execute sixPixels) addShapes).state.outcomes rest)
        ((Workspace.empty.execute sixPixels).outcomes rest) := by
  obtain ⟨tall, tallChain⟩ : ∃ v, ramp.asView.subViews [⟨⟨1, 0⟩, ⟨2, 3⟩⟩] = .ok v := ⟨_, rfl⟩
  obtain ⟨wide, wideChain⟩ : ∃ v, ramp.asView.subViews [⟨⟨0, 2⟩, ⟨3, 2⟩⟩] = .ok v := ⟨_, rfl⟩
  have wf := ramp_reachable.wellFormed.asView
  have tallSize : tall.size = ⟨2, 3⟩ := (View.isWindowOf_of_subViews _ _ tall wf tallChain).1
  have wideSize : wide.size = ⟨3, 2⟩ := (View.isWindowOf_of_subViews _ _ wide wf wideChain).1
  have tallMade : tall.Reachable := ⟨ramp, ramp_reachable, _, tallChain⟩
  have wideMade : wide.Reachable := ⟨ramp, ramp_reachable, _, wideChain⟩
  obtain ⟨assigns, updates, goesOn⟩ := evaluation_refused_iff ramp ramp_reachable
  have mixed := (assigns (.binary .plus (.leaf tall) (.leaf wide))
    (by simp [Expr.leaves, tallMade, wideMade])).1
  have doubled := (assigns (.binary .plus (.leaf tall) (.leaf tall))
    (by simp [Expr.leaves, tallMade])).1
  have copied := (updates (.leaf (.other wide)) fun h v member => by
    rcases member with _ | ⟨_, ⟨⟩⟩
    exact wideMade).2
  have fails : (Command.run (Workspace.empty.execute sixPixels) addShapes).failure ≠ none :=
    Option.some_ne_none _
  refine ⟨ramp_reachable, tall, wide, tallChain, wideChain, mixed.refused_iff.mpr ?_,
    doubled.failure_eq_none_iff.mpr ?_, copied ⟨3, 2⟩ (by decide) ?_ ?_, fails, ?_⟩
  · simp [Expr.leaves, tallSize, wideSize]
  · simp [Expr.leaves]
  · simp [Expr.leaves]
  · simp [Expr.leaves, WithSelf.sizeOf, wideSize]
  · exact goesOn _ ⟨sixPixels, rfl⟩ addShapes fails _

end Image

end Raster
