import Raster.Failure

/-!
# Successful computations

A computation succeeds exactly if all its steps do. These lemmas take a success apart into the
successes of its steps, and put it together again.
-/

namespace Raster

variable {ε ε' α β : Type}

theorem bind_eq_ok_iff (step : Except ε α) (next : α → Except ε β) (result : β) :
    (step >>= next) = .ok result ↔ ∃ value, step = .ok value ∧ next value = .ok result := by
  cases step <;> simp [bind, Except.bind]

theorem pure_eq_ok_iff (value result : α) :
    (pure value : Except ε α) = .ok result ↔ value = result := by
  simp [pure, Except.pure]

theorem mapError_eq_ok_iff (step : Except ε α) (translate : ε → ε') (result : α) :
    step.mapError translate = .ok result ↔ step = .ok result := by
  cases step with
  | error refusal => exact ⟨nofun, nofun⟩
  | ok value =>
    change (Except.ok value : Except ε' α) = .ok result ↔ _
    simp only [Except.ok.injEq]

/-- A step that can only fault succeeds as a step of an operation if it succeeds. -/
theorem liftFault_eq_ok_iff (step : Except Fault α) (result : α) :
    (liftM step : Except Failure α) = .ok result ↔ step = .ok result :=
  mapError_eq_ok_iff step Failure.fault result

/-- A step that can only refuse succeeds as a step of an operation if it succeeds. -/
theorem liftError_eq_ok_iff (step : Except Error α) (result : α) :
    (liftM step : Except Failure α) = .ok result ↔ step = .ok result :=
  mapError_eq_ok_iff step Failure.error result

/-- A traversal whose steps all succeed yields their results in order. -/
theorem mapM_total (f : α → Except ε β) (xs : List α) (total : ∀ x ∈ xs, ∃ y, f x = .ok y) :
    ∃ ys, xs.mapM f = .ok ys ∧ ys.length = xs.length ∧
      ∀ (i : Nat) (x : α), xs[i]? = some x → ∃ y, f x = .ok y ∧ ys[i]? = some y := by
  induction xs with
  | nil => exact ⟨[], rfl, rfl, by simp⟩
  | cons x xs ih =>
    obtain ⟨y, first⟩ := total x (by simp)
    obtain ⟨ys, rest, length, pointwise⟩ := ih fun x member => total x (by simp [member])
    refine ⟨y :: ys, ?_, by simp [length], ?_⟩
    · rw [List.mapM_cons, first, rest]
      rfl
    · intro i x' at_i
      cases i with
      | zero =>
        obtain rfl : x = x' := by simpa using at_i
        exact ⟨y, first, rfl⟩
      | succ i => exact pointwise i x' (by simpa using at_i)

/-- A traversal whose steps succeed with known results is a map. -/
theorem mapM_map_eq_ok {γ : Type} (item : γ → α) (f : α → Except ε β) (result : γ → β)
    (xs : List γ) (each : ∀ x ∈ xs, f (item x) = .ok (result x)) :
    (xs.map item).mapM f = .ok (xs.map result) := by
  induction xs with
  | nil => rfl
  | cons x xs ih =>
    have first := each x (by simp)
    have rest := ih fun x member => each x (by simp [member])
    rw [List.map_cons, List.mapM_cons, first, rest]
    rfl

theorem mapM_eq_ok (f : α → Except ε β) (result : α → β) (xs : List α)
    (each : ∀ x ∈ xs, f x = .ok (result x)) : xs.mapM f = .ok (xs.map result) := by
  have mapped := mapM_map_eq_ok id f result xs each
  rwa [List.map_id] at mapped

end Raster
