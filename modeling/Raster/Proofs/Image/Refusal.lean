import Raster.Proofs.Expr.InPlace

/-!
# Refused evaluations

Evaluation compares all sizes before it changes anything. An assignment is refused exactly if two
views of the tree differ in size, and an update exactly if some leaf differs in size from the image.
What is refused leaves the image as it was, hidden slots included.
-/

namespace Raster.Image

variable {f : PixelFormat}

/-- The writing of pixels can fault, but does not refuse anything. -/
private theorem map_fault_ne_error (fault? : Option Fault) (refusal : Error) :
    some (.error refusal) ≠ fault?.map Failure.fault := by
  cases fault? <;> simp

/-! ### Assignment -/

theorem assign_refused_iff (img : Image (Pixel f)) (e : Expr ViewLeaf f) :
    (∃ refusal, img.assign e = .failed img (.error refusal)) ↔
      ∃ l ∈ e.leaves, ∃ m ∈ e.leaves, l.2.size ≠ m.2.size := by
  refine Iff.trans ?_ (e.size?_eq_error_iff fun v => v.size)
  constructor
  · rintro ⟨refusal, refused⟩
    cases computed : e.viewSize? with
    | error refusal => exact ⟨refusal, computed⟩
    | ok size? =>
      have failure := (img.assign_of_agreed e size? computed).2
      rw [refused] at failure
      exact absurd failure (map_fault_ne_error _ refusal)
  · rintro ⟨refusal, refused⟩
    exact ⟨refusal, img.assign_of_refused e refusal refused⟩

/-! ### Update -/

theorem checkSize_eq_ok_iff (size : Size) (e : Expr (WithSelf f ViewLeaf) f) :
    checkSize size e = .ok () ↔ ∀ l ∈ e.leaves, l.2.sizeOf size = size := by
  unfold checkSize
  cases computed : e.size? fun source => source.sizeOf size with
  | error refusal =>
    -- Two leaves that differ are not both of the size of the image.
    obtain ⟨l, memberL, m, memberM, different⟩ := (e.size?_eq_error_iff _).mp ⟨refusal, computed⟩
    refine ⟨nofun, fun same => ?_⟩
    exact absurd ((same l memberL).trans (same m memberM).symm) different
  | ok size? =>
    cases size? with
    | none =>
      have noLeaves := (e.size?_eq_none_iff _).mp computed
      simp [noLeaves, bind, Except.bind, pure, Except.pure]
    | some other =>
      obtain ⟨views, all⟩ := (e.size?_eq_some_iff _ other).mp computed
      obtain ⟨l, member⟩ := List.exists_mem_of_ne_nil _ views
      change (if other = size then _ else _) = _ ↔ _
      split
      next same => exact ⟨fun _ => same ▸ all, fun _ => rfl⟩
      next different =>
        refine ⟨nofun, fun same => ?_⟩
        exact absurd ((all l member).symm.trans (same l member)) different

/-- Leaves that agree with each other, but not with the image, are told by the image's size and
theirs. -/
theorem checkSize_of_other (size other : Size) (e : Expr (WithSelf f ViewLeaf) f)
    (different : other ≠ size) (views : e.leaves ≠ [])
    (agree : ∀ l ∈ e.leaves, l.2.sizeOf size = other) :
    checkSize size e = .error (.geometryMismatch size other) := by
  have computed := (e.size?_eq_some_iff (fun source => source.sizeOf size) other).mpr ⟨views, agree⟩
  unfold checkSize
  rw [computed]
  exact if_neg different

theorem update_refused_iff (img : Image (Pixel f)) (e : Expr (WithSelf f ViewLeaf) f) :
    (∃ refusal, img.update e = .failed img (.error refusal)) ↔
      ∃ l ∈ e.leaves, l.2.sizeOf img.size ≠ img.size := by
  have accepted := checkSize_eq_ok_iff img.size e
  cases checked : checkSize img.size e with
  | error refusal =>
    refine ⟨fun _ => ?_, fun _ => ⟨refusal, img.update_of_refused e refusal checked⟩⟩
    simpa [checked] using accepted
  | ok =>
    have same := accepted.mp checked
    constructor
    · rintro ⟨refusal, refused⟩
      have failure := (img.update_of_agreed e checked).2
      rw [refused] at failure
      exact absurd failure (map_fault_ne_error _ refusal)
    · rintro ⟨l, member, different⟩
      exact absurd (same l member) different

end Raster.Image
