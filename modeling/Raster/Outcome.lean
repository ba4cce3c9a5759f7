import Raster.Log

/-!
# Outcomes

What an operation that changes something leaves behind, whether it succeeds or not: the state, the
records that it wrote, and the failure that ended it.
-/

namespace Raster

structure Outcome (State : Type) where
  state : State
  records : List LogRecord
  failure : Option Failure

namespace Outcome

variable {State Other : Type}

/-- A success that tells nothing. -/
def done (state : State) : Outcome State :=
  ⟨state, [], none⟩

/-- A failure that has changed nothing. -/
def failed (state : State) (failure : Failure) : Outcome State :=
  ⟨state, [], some failure⟩

/-- The new state, or the old one together with the failure to get a new one. -/
def ofExcept (old : State) : Except Failure State → Outcome State
  | .ok new => done new
  | .error failure => failed old failure

/-- The same outcome for a larger state. -/
def map (embed : State → Other) (o : Outcome State) : Outcome Other :=
  ⟨embed o.state, o.records, o.failure⟩

end Outcome

end Raster
