import Raster.Proofs.Expr.Fusion
import Raster.Proofs.Image.Refusal

/-!
# Where evaluation faults

A tree faults at an index exactly if one of its leaves does, and a leaf does exactly past its last
pixel. Operators and conversions have a result for all operands, also for a division by zero. The
indices that evaluation walks through are those of an image of the leaves' size, so evaluation never
faults: either it is refused and changes nothing, or it writes every pixel.
-/

namespace Raster

/-! ### Leaves -/

theorem View.exists_read_iff {α : Type} (v : View α) (wf : v.WellFormed) (i : Nat) :
    (∃ p, v.read i = .ok p) ↔ i < v.pixelCount := by
  constructor
  · rintro ⟨p, returned⟩
    apply Nat.lt_of_not_le
    intro outside
    obtain ⟨fault, faults⟩ := v.read_of_le wf i outside
    simp [faults] at returned
  · exact v.exists_read wf i

variable {f g : PixelFormat}

namespace Expr

/-- A tree over views has a pixel exactly at the indices that all its views have. -/
theorem exists_read_iff (e : Expr ViewLeaf g) (sources : ∀ l ∈ e.leaves, l.2.WellFormed) (i : Nat) :
    (∃ p, e.read i = .ok p) ↔ ∀ l ∈ e.leaves, i < l.2.pixelCount := by
  refine (e.eval_eq_ok_iff (fun v i => v.read i) i).trans ?_
  constructor
  · intro reads l member
    exact (l.2.exists_read_iff (sources l member) i).mp (reads l member)
  · intro inside l member
    exact (l.2.exists_read_iff (sources l member) i).mpr (inside l member)

/-! ### Trees that read the image -/

/-- The pixel at an index, where the tree reads the image as it is. -/
def readOver (e : Expr (WithSelf f ViewLeaf) g) (img : Image (Pixel f)) (i : Nat) :
    Except Fault (Pixel g) :=
  e.eval (fun source i => source.read img.data i) i

theorem readOver_eq_read_resolve (e : Expr (WithSelf f ViewLeaf) g) (img : Image (Pixel f))
    (i : Nat) : e.readOver img i = (e.resolve img.asView).read i := by
  unfold readOver resolve read
  rw [eval_map]
  apply eval_congr
  rintro ⟨h, source⟩ -
  cases source with
  | self => exact (if_pos rfl : img.asView.read i = img.data.read i).symm
  | other v => rfl

/-- What holds of the image's own view and of the other views of a tree holds of all that is read. -/
theorem forall_leaves_resolve (e : Expr (WithSelf f ViewLeaf) g) (own : View (Pixel f))
    (property : (h : PixelFormat) × ViewLeaf h → Prop) (holds : property ⟨f, own⟩)
    (sources : ∀ h (v : View (Pixel h)), ⟨h, .other v⟩ ∈ e.leaves → property ⟨h, v⟩) :
    ∀ l ∈ (e.resolve own).leaves, property l := by
  unfold resolve
  rw [leaves_map]
  intro l member
  obtain ⟨⟨h, source⟩, listed, rfl⟩ := List.mem_map.mp member
  cases source with
  | self => exact holds
  | other v => exact sources h v listed

theorem exists_readOver_iff (e : Expr (WithSelf f ViewLeaf) g) (img : Image (Pixel f))
    (wf : img.WellFormed)
    (sources : ∀ h (v : View (Pixel h)), ⟨h, .other v⟩ ∈ e.leaves → v.WellFormed) (i : Nat) :
    (∃ p, e.readOver img i = .ok p) ↔ ∀ l ∈ e.leaves, i < (l.2.sizeOf img.size).area := by
  have resolved := e.forall_leaves_resolve img.asView (fun l => l.2.WellFormed) wf.asView sources
  rw [readOver_eq_read_resolve, exists_read_iff _ resolved]
  unfold resolve
  rw [leaves_map, List.forall_mem_map]
  simp only [View.pixelCount, WithSelf.size_resolve]
  rfl

end Expr

/-! ### Whole evaluations -/

namespace Image

/-- An update that is not refused writes every pixel, with what the tree reads there in the old
image. -/
theorem update_writes (img : Image (Pixel f)) (wf : img.WellFormed)
    (e : Expr (WithSelf f ViewLeaf) f) (agree : ∀ l ∈ e.leaves, l.2.sizeOf img.size = img.size)
    (sources : ∀ h (v : View (Pixel h)), ⟨h, .other v⟩ ∈ e.leaves → v.WellFormed) :
    (img.update e).failure = none ∧ (img.update e).state.size = img.size ∧
      ∀ i < img.size.area, ∃ p, e.readOver img i = .ok p ∧
        (img.update e).state.data.toList[i]? = some p := by
  have resolved := e.forall_leaves_resolve img.asView (fun l => l.2.WellFormed) wf.asView sources
  cases computed : e.size? fun source => source.sizeOf img.size with
  | error refusal =>
    obtain ⟨l, memberL, m, memberM, different⟩ := (e.size?_eq_error_iff _).mp ⟨refusal, computed⟩
    exact absurd ((agree l memberL).trans (agree m memberM).symm) different
  | ok size? =>
    have same : size?.getD img.size = img.size :=
      Admits.getD_eq (.inr (.inr agree)) size? computed
    -- The update leaves what the assignment of the same tree over the image's own view does.
    obtain ⟨state, failure⟩ := img.update_eq_assign_of_agreed e size? computed same
    obtain ⟨success, size, written⟩ := img.assign_writes wf (e.resolve img.asView) size?
      ((e.viewSize?_resolve img.asView).trans computed) resolved
    rw [same] at size written
    rw [state, failure]
    simp only [Expr.readOver_eq_read_resolve]
    exact ⟨success, size, written⟩

/-- The evaluation was refused and has changed nothing, or it has written every pixel of the image
that it leaves with the value for its index. -/
def AllOrNothing (old : Image (Pixel f)) (value : Nat → Except Fault (Pixel f))
    (outcome : Outcome (Image (Pixel f))) : Prop :=
  (∃ refusal, outcome = .failed old (.error refusal)) ∨
    outcome.failure = none ∧ ∀ i < outcome.state.size.area, ∃ p, value i = .ok p ∧
      outcome.state.data.toList[i]? = some p

theorem assign_allOrNothing (img : Image (Pixel f)) (wf : img.WellFormed) (e : Expr ViewLeaf f)
    (sources : ∀ l ∈ e.leaves, l.2.WellFormed) : img.AllOrNothing e.read (img.assign e) := by
  cases computed : e.viewSize? with
  | error refusal => exact .inl ⟨refusal, img.assign_of_refused e refusal computed⟩
  | ok size? =>
    obtain ⟨success, size, written⟩ := img.assign_writes wf e size? computed sources
    exact .inr ⟨success, size ▸ written⟩

theorem update_allOrNothing (img : Image (Pixel f)) (wf : img.WellFormed)
    (e : Expr (WithSelf f ViewLeaf) f)
    (sources : ∀ h (v : View (Pixel h)), ⟨h, .other v⟩ ∈ e.leaves → v.WellFormed) :
    img.AllOrNothing (e.readOver img) (img.update e) := by
  by_cases agree : ∀ l ∈ e.leaves, l.2.sizeOf img.size = img.size
  · obtain ⟨success, size, written⟩ := img.update_writes wf e agree sources
    exact .inr ⟨success, size.symm ▸ written⟩
  · have differs : ∃ l ∈ e.leaves, l.2.sizeOf img.size ≠ img.size := by simpa using agree
    exact .inl ((img.update_refused_iff e).mpr differs)

/-- Reading has a result at exactly the indices that images of all these sizes have, and faults at
all others. -/
def ReadsWithin {α : Type} (sizes : List Size) (read : Nat → Except Fault α) : Prop :=
  ∀ i, ((∃ p, read i = .ok p) ↔ ∀ size ∈ sizes, i < size.area) ∧
    ((∃ fault, read i = .error fault) ↔ ∃ size ∈ sizes, size.area ≤ i)

theorem readsWithin_of_iff {α : Type} (sizes : List Size) (read : Nat → Except Fault α)
    (reads : ∀ i, (∃ p, read i = .ok p) ↔ ∀ size ∈ sizes, i < size.area) :
    ReadsWithin sizes read := by
  intro i
  refine ⟨reads i, ?_⟩
  have inside := reads i
  cases result : read i with
  | error fault => simpa [result] using inside
  | ok p => simpa [result] using inside

/-- Reading a tree faults exactly past the end of one of its leaves, whatever operators and conversions
it has and whether or not its leaves agree in size. So no evaluation into an image faults, and none
leaves an image with some of its pixels evaluated. -/
theorem evaluation_total (img : Image (Pixel f)) (reachable : img.Reachable) :
    (∀ g (e : Expr ViewLeaf g), (∀ l ∈ e.leaves, View.Reachable l.2) →
      ReadsWithin (e.leaves.map fun l => l.2.size) e.read) ∧
    (∀ g (e : Expr (WithSelf f ViewLeaf) g),
      (∀ h (v : View (Pixel h)), ⟨h, .other v⟩ ∈ e.leaves → v.Reachable) →
        ReadsWithin (e.leaves.map fun l => l.2.sizeOf img.size) (e.readOver img)) ∧
    (∀ e : Expr ViewLeaf f, (∀ l ∈ e.leaves, View.Reachable l.2) →
      img.AllOrNothing e.read (img.assign e) ∧ blank.AllOrNothing e.read (ofExpr e)) ∧
    ∀ e : Expr (WithSelf f ViewLeaf) f,
      (∀ h (v : View (Pixel h)), ⟨h, .other v⟩ ∈ e.leaves → v.Reachable) →
        img.AllOrNothing (e.readOver img) (img.update e) := by
  have wf := reachable.wellFormed
  refine ⟨fun g e sources => ?_, fun g e sources => ?_, fun e sources => ?_, fun e sources => ?_⟩
  · have sourcesWf (l) (member : l ∈ e.leaves) : l.2.WellFormed := (sources l member).wellFormed
    apply readsWithin_of_iff
    intro i
    rw [List.forall_mem_map]
    exact e.exists_read_iff sourcesWf i
  · have sourcesWf (h) (v : View (Pixel h)) (member : ⟨h, .other v⟩ ∈ e.leaves) : v.WellFormed :=
      (sources h v member).wellFormed
    apply readsWithin_of_iff
    intro i
    rw [List.forall_mem_map]
    exact e.exists_readOver_iff img wf sourcesWf i
  · have sourcesWf (l) (member : l ∈ e.leaves) : l.2.WellFormed := (sources l member).wellFormed
    exact ⟨img.assign_allOrNothing wf e sourcesWf,
      blank.assign_allOrNothing wellFormed_blank e sourcesWf⟩
  · exact img.update_allOrNothing wf e fun h v member => (sources h v member).wellFormed

/-- An image divided by a window, and the remainder of that for zero. -/
def remainder (window : View (Pixel .gray8)) : Expr (WithSelf .gray8 ViewLeaf) .gray8 :=
  .binary (.modulo .gray8) (.binary .divide (.leaf .self) (.leaf (.other window)))
    (.const (Level.ofNat 0 : Level 8))

/-- The image has more pixels than the nested window, so the tree ends with the window. A constant
divided by zero is evaluated everywhere. -/
theorem evaluation_total_remainder :
    ramp.Reachable ∧ ∃ window,
      ramp.asView.subViews [⟨⟨1, 1⟩, ⟨4, 3⟩⟩, ⟨⟨2, 1⟩, ⟨2, 2⟩⟩] = .ok window ∧
      (∃ p, (remainder window).readOver ramp 3 = .ok p) ∧
      (∃ fault, (remainder window).readOver ramp 4 = .error fault) ∧
      ramp.AllOrNothing ((remainder window).readOver ramp) (ramp.update (remainder window)) ∧
      let quotient : Expr ViewLeaf .gray8 :=
        .binary .divide (.leaf window) (.const (Level.ofNat 0 : Level 8))
      ramp.AllOrNothing quotient.read (ramp.assign quotient) := by
  obtain ⟨window, chain⟩ : ∃ window,
      ramp.asView.subViews [⟨⟨1, 1⟩, ⟨4, 3⟩⟩, ⟨⟨2, 1⟩, ⟨2, 2⟩⟩] = .ok window := ⟨_, rfl⟩
  have reachable : window.Reachable := ⟨ramp, ramp_reachable, _, chain⟩
  have size : window.size = ⟨2, 2⟩ :=
    (View.isWindowOf_of_subViews _ _ window ramp_reachable.wellFormed.asView chain).1
  obtain ⟨-, reads, assigns, updates⟩ := evaluation_total ramp ramp_reachable
  have sources : ∀ h (v : View (Pixel h)), ⟨h, .other v⟩ ∈ (remainder window).leaves →
      v.Reachable := by
    -- The image itself is not among the views, and the window is the only one.
    intro h v member
    rcases member with _ | ⟨_, _ | ⟨_, ⟨⟩⟩⟩
    exact reachable
  have sizes : ((remainder window).leaves.map fun l => l.2.sizeOf ramp.size) =
      [⟨6, 4⟩, ⟨2, 2⟩] := by
    simp [remainder, Expr.leaves, WithSelf.sizeOf, size]
    rfl
  have within := reads _ (remainder window) sources
  rw [sizes] at within
  refine ⟨ramp_reachable, window, chain, (within 3).1.mpr (by decide), (within 4).2.mpr (by decide),
    updates _ sources, ?_⟩
  exact (assigns _ (by simpa [Expr.leaves] using reachable)).1

end Image

end Raster
