import Raster.Outcome

/-!
# Agreement of two runs

Two computations agree if both fail in the same way, or both succeed with related results. Steps
that agree make up computations that agree, so the agreement of two runs of one program is followed
step by step. Two outcomes agree if besides they tell the same.
-/

namespace Raster

/-- Both fail with the same error, or both succeed with results that are related. -/
inductive Agree {ε α β : Type} (related : α → β → Prop) : Except ε α → Except ε β → Prop where
  | error (e : ε) : Agree related (.error e) (.error e)
  | ok {a : α} {b : β} (results : related a b) : Agree related (.ok a) (.ok b)

namespace Agree

variable {ε ε' α β γ δ : Type} {related : α → β → Prop} {next : γ → δ → Prop}
  {x : Except ε α} {y : Except ε β}

theorem bind {f : α → Except ε γ} {g : β → Except ε δ} (first : Agree related x y)
    (second : ∀ a b, related a b → Agree next (f a) (g b)) : Agree next (x >>= f) (y >>= g) := by
  cases first with
  | error e => exact .error e
  | ok results => exact second _ _ results

/-- Computations that share their first step agree if they agree after it. -/
theorem bind_self {f : γ → Except ε α} {g : γ → Except ε β} (first : Except ε γ)
    (second : ∀ c, Agree related (f c) (g c)) : Agree related (first >>= f) (first >>= g) := by
  cases first with
  | error e => exact .error e
  | ok c => exact second c

theorem map {f : α → γ} {g : β → δ} (first : Agree related x y)
    (second : ∀ a b, related a b → next (f a) (g b)) : Agree next (x.map f) (y.map g) := by
  cases first with
  | error e => exact .error e
  | ok results => exact .ok (second _ _ results)

theorem mapError (first : Agree related x y) (translate : ε → ε') :
    Agree related (x.mapError translate) (y.mapError translate) := by
  cases first with
  | error e => exact .error _
  | ok results => exact .ok results

/-- Computations that agree are the same up to a continuation that cannot tell their results
apart. -/
theorem bind_eq {f : α → Except ε γ} {g : β → Except ε γ} (first : Agree related x y)
    (second : ∀ a b, related a b → f a = g b) : x >>= f = y >>= g := by
  cases first with
  | error e => rfl
  | ok results => exact second _ _ results

/-- Computations that agree yield the same after results are mapped to what they share. -/
theorem map_eq {f : α → γ} {g : β → γ} (first : Agree related x y)
    (second : ∀ a b, related a b → f a = g b) : x.map f = y.map g := by
  cases first with
  | error e => rfl
  | ok results => exact congrArg Except.ok (second _ _ results)

theorem error_inv {e : ε} (agree : Agree related (.error e) y) : y = .error e := by
  cases agree
  rfl

theorem ok_inv {a : α} (agree : Agree related (.ok a) y) : ∃ b, y = .ok b ∧ related a b := by
  cases agree with
  | ok results => exact ⟨_, rfl, results⟩

end Agree

namespace Outcome

variable {State Other : Type}

/-- Both outcomes tell the same and end in the same way, in states that are related. -/
structure Alike (related : State → Other → Prop) (o : Outcome State) (p : Outcome Other) : Prop where
  state : related o.state p.state
  records_eq : o.records = p.records
  failure_eq : o.failure = p.failure

variable {State' Other' : Type} {related : State → Other → Prop} {larger : State' → Other' → Prop}
  {o : Outcome State} {p : Outcome Other}

theorem Alike.map {f : State → State'} {g : Other → Other'} (alike : o.Alike related p)
    (embed : ∀ s t, related s t → larger (f s) (g t)) : (o.map f).Alike larger (p.map g) :=
  ⟨embed _ _ alike.state, alike.records_eq, alike.failure_eq⟩

theorem alike_done {s : State} {t : Other} (states : related s t) :
    (done s).Alike related (done t) :=
  ⟨states, rfl, rfl⟩

theorem alike_failed {s : State} {t : Other} (states : related s t) (failure : Failure) :
    (failed s failure).Alike related (failed t failure) :=
  ⟨states, rfl, rfl⟩

theorem alike_ofExcept {s : State} {t : Other} {x : Except Failure State}
    {y : Except Failure Other} (old : related s t) (agree : Agree related x y) :
    (ofExcept s x).Alike related (ofExcept t y) := by
  cases agree with
  | error failure => exact alike_failed old failure
  | ok results => exact alike_done results

end Outcome

end Raster
