import Mathlib.Logic.Function.Basic
import Raster.Proofs.Storage.Shape

/-!
# Storages refine lists

Whatever is done to storages, every read gives what it gives of plain lists to which the same is
done. Lists know nothing of slots, kinds or capacities, so storages of different capacities cannot
be told apart by their items either.

A single operation is followed through the list of the items. Runs act on storages in numbered
places, where one storage can be copied from another, and follow by induction over their steps.
-/

namespace Raster.Storage

variable {α : Type} {capacity : Nat}

/-- Copying a slice and taking over an array give the same storage, down to the hidden slots. -/
theorem ofSlice_eq_ofArray [Inhabited α] (source : Slice α) :
    (ofSlice source : Storage α capacity) = ofArray source.toArray := by
  have length := source.size_toArray
  unfold ofSlice filled ofArray
  by_cases inside : source.length ≤ capacity
  · have insideArray : source.toArray.size ≤ capacity := length ▸ inside
    rw [dif_pos inside, dif_pos insideArray]
    simp only [modify, inline.injEq]
    refine ⟨?_, length.symm⟩
    ext i below
    by_cases visible : i < source.toArray.size
    · simp [← length, visible]
    · -- Behind the items both hold default values.
      have hidden : source.toArray.size ≤ i := Nat.le_of_not_lt visible
      simp [← length, visible, Array.getElem_append_right hidden]
  · have outsideArray : ¬source.toArray.size ≤ capacity := length ▸ inside
    rw [dif_neg inside, dif_neg outsideArray]
    simp only [modify, heap.injEq]
    apply Array.ext
    · simp [length]
    · intro i _ below
      simp [below]

/-! ### One storage -/

/-- What can be done to a storage apart from copying it. Every change of length gives a fill. -/
inductive Operation (α : Type) where
  | blank
  | filled (length : Nat) (value : α)
  | ofSlice (source : Slice α)
  | ofArray (items : Array α)
  | setLength (length : Nat) (value : α)
  | set (i : Nat) (value : α)

namespace Operation

def run [Inhabited α] (s : Storage α capacity) : Operation α → Except Fault (Storage α capacity)
  | blank => .ok .blank
  | filled length value => .ok (.filled length value)
  | ofSlice source => .ok (.ofSlice source)
  | ofArray items => .ok (.ofArray items)
  | setLength length value => .ok (s.setLength length (some value)).1
  | set i value => s.set i value

/-- The operation on a plain list. -/
def runList (items : List α) : Operation α → Except Fault (List α)
  | blank => .ok []
  | filled length value => .ok (List.replicate length value)
  | ofSlice source => .ok source.toList
  | ofArray array => .ok array.toList
  | setLength length value => .ok (List.replicate length value)
  | set i value =>
    if i < items.length then .ok (items.set i value)
    else .error (.indexOutOfBounds items.length i)

theorem run_toList [Inhabited α] (s : Storage α capacity) (operation : Operation α) :
    (operation.run s).map toList = operation.runList s.toList := by
  cases operation with
  | blank => exact congrArg Except.ok toList_blank
  | filled length value => exact congrArg Except.ok (toList_filled length value)
  | ofSlice source =>
    have copied : (Storage.ofSlice source : Storage α capacity).toList = source.toArray.toList := by
      rw [ofSlice_eq_ofArray, toList_ofArray]
    exact congrArg Except.ok copied
  | ofArray items => exact congrArg Except.ok (toList_ofArray items)
  | setLength length value => exact congrArg Except.ok (toList_setLength_some s length value)
  | set i value =>
    simp only [run, runList, Storage.set, length_toList]
    by_cases inside : i < s.length
    · rw [if_pos inside, if_pos inside]
      exact congrArg Except.ok (toList_put s i value)
    · rw [if_neg inside, if_neg inside]
      rfl

/-- The only operation that can fault is a write, and it faults exactly past the end. -/
theorem run_eq_error_iff [Inhabited α] (s : Storage α capacity) (operation : Operation α)
    (fault : Fault) :
    operation.run s = .error fault ↔
      ∃ i value, operation = .set i value ∧ s.length ≤ i ∧ fault = .indexOutOfBounds s.length i := by
  cases operation with
  | set i value =>
    simp only [run, Storage.set]
    by_cases inside : i < s.length
    · simp [inside, Nat.not_le.mpr inside]
    · simp [inside, Nat.le_of_not_lt inside, eq_comm]
  | _ => simp [run]

end Operation

/-! ### Runs -/

/-- A step of a run on storages in numbered places. -/
inductive Step (α : Type) where
  | operate (place : Nat) (operation : Operation α)
  | clone (source place : Nat)

namespace Step

variable {State Other : Type}

/-- The places after a step, and the fault that ended it. A fault leaves all places as they were. -/
def run (perform : State → Operation α → Except Fault State) (places : Nat → State) :
    Step α → (Nat → State) × Option Fault
  | operate place operation =>
    match perform (places place) operation with
    | .ok new => (Function.update places place new, none)
    | .error fault => (places, some fault)
  | clone source place => (Function.update places place (places source), none)

/-- The places after each step of a run, each with the fault that ended the step. -/
def trace (perform : State → Operation α → Except Fault State) (places : Nat → State) :
    List (Step α) → List ((Nat → State) × Option Fault)
  | [] => []
  | step :: rest => step.run perform places :: trace perform (step.run perform places).1 rest

/-- Two ways to perform operations that agree under a view of the states agree on every step. -/
theorem run_comp (perform : State → Operation α → Except Fault State)
    (performOther : Other → Operation α → Except Fault Other) (view : State → Other)
    (commutes : ∀ s operation, (perform s operation).map view = performOther (view s) operation)
    (places : Nat → State) (step : Step α) :
    (step.run perform places).map (view ∘ ·) id = step.run performOther (view ∘ places) := by
  cases step with
  | operate place operation =>
    have agree := commutes (places place) operation
    simp only [run, Function.comp_apply, ← agree]
    cases perform (places place) operation with
    | error fault => rfl
    | ok new => exact congrArg (·, none) (Function.comp_update view places place new)
  | clone source place =>
    -- A copy is not performed on a state, so nothing is asked of the view here.
    exact congrArg (·, none) (Function.comp_update view places place (places source))

theorem trace_comp (perform : State → Operation α → Except Fault State)
    (performOther : Other → Operation α → Except Fault Other) (view : State → Other)
    (commutes : ∀ s operation, (perform s operation).map view = performOther (view s) operation)
    (places : Nat → State) (steps : List (Step α)) :
    (trace perform places steps).map (Prod.map (view ∘ ·) id) =
      trace performOther (view ∘ places) steps := by
  induction steps generalizing places with
  | nil => rfl
  | cons step rest ih =>
    have agree := run_comp perform performOther view commutes places step
    simp only [trace, List.map_cons, ih, ← agree]
    rfl

theorem run_eq_fault_iff [Inhabited α] (places : Nat → Storage α capacity) (step : Step α)
    (fault : Fault) :
    (step.run Operation.run places).2 = some fault ↔
      ∃ place i value, step = .operate place (.set i value) ∧ (places place).length ≤ i ∧
        fault = .indexOutOfBounds (places place).length i := by
  cases step with
  | clone source place => simp [run]
  | operate place operation =>
    have faults := operation.run_eq_error_iff (places place) fault
    simp only [run, operate.injEq]
    cases performed : operation.run (places place) with
    | ok new =>
      rw [performed] at faults
      constructor
      · rintro ⟨⟩
      · rintro ⟨_, i, value, ⟨rfl, rfl⟩, outside⟩
        cases faults.mpr ⟨i, value, rfl, outside⟩
    | error other =>
      rw [performed, Except.error.injEq] at faults
      simp only [Option.some.injEq, faults]
      constructor
      · rintro ⟨i, value, rfl, outside⟩
        exact ⟨place, i, value, ⟨rfl, rfl⟩, outside⟩
      · rintro ⟨_, i, value, ⟨rfl, rfl⟩, outside⟩
        exact ⟨i, value, rfl, outside⟩

theorem places_of_fault (perform : State → Operation α → Except Fault State)
    (places : Nat → State) (step : Step α) (fault : Fault)
    (faulted : (step.run perform places).2 = some fault) : (step.run perform places).1 = places := by
  cases step with
  | clone source place => cases faulted
  | operate place operation =>
    unfold run at faulted ⊢
    dsimp only at faulted ⊢
    split at faulted
    · cases faulted
    · rfl

end Step

/-! ### Reads -/

/-- All that can be read of a storage, its kind apart. -/
structure Reading (α : Type) where
  length : Nat
  isEmpty : Bool
  items : List α

def reading (s : Storage α capacity) : Reading α :=
  ⟨s.length, s.isEmpty, s.items.toList⟩

/-- What would be read of a storage with these items. -/
def Reading.ofList (items : List α) : Reading α :=
  ⟨items.length, items.isEmpty, items⟩

theorem reading_eq_ofList (s : Storage α capacity) : s.reading = .ofList s.toList := by
  have length := s.length_toList
  have empty : s.isEmpty = s.toList.isEmpty := by
    rw [Bool.eq_iff_iff, List.isEmpty_iff_length_eq_zero, length]
    exact beq_iff_eq
  rw [reading, Reading.ofList, empty, length]
  rfl

/-- What can be read after each step of a run on storages, all of which are blank at first. -/
def readings [Inhabited α] (capacity : Nat) (steps : List (Step α)) :
    List ((Nat → Reading α) × Option Fault) :=
  (Step.trace Operation.run (fun _ => (blank : Storage α capacity)) steps).map
    (Prod.map (reading ∘ ·) id)

/-- What can be read after each step of the same run on lists, all of which are empty at first. -/
def listReadings (steps : List (Step α)) : List ((Nat → Reading α) × Option Fault) :=
  (Step.trace Operation.runList (fun _ => []) steps).map (Prod.map (Reading.ofList ∘ ·) id)

theorem readings_eq_listReadings [Inhabited α] (capacity : Nat) (steps : List (Step α)) :
    readings capacity steps = listReadings steps := by
  have start : toList ∘ (fun _ : Nat => (blank : Storage α capacity)) = fun _ => [] :=
    funext fun _ => toList_blank
  have traces := Step.trace_comp Operation.run Operation.runList toList Operation.run_toList
    (fun _ => (blank : Storage α capacity)) steps
  rw [start] at traces
  have reads : (reading : Storage α capacity → Reading α) = Reading.ofList ∘ toList :=
    funext reading_eq_ofList
  unfold readings listReadings
  rw [← traces, List.map_map, reads]
  rfl

/-- After every step of a run, storages of any capacity read as the lists of the same run do, and
so as storages of any other capacity. The faults are the writes past the end, which leave every
storage as it was, hidden slots included. -/
theorem readings_refine_lists [Inhabited α] (steps : List (Step α)) (capacity : Nat) :
    readings capacity steps = listReadings steps ∧
      (∀ other, readings capacity steps = readings other steps) ∧
      ∀ (places : Nat → Storage α capacity) (step : Step α) (fault : Fault),
        ((step.run Operation.run places).2 = some fault ↔
          ∃ place i value, step = .operate place (.set i value) ∧ (places place).length ≤ i ∧
            fault = .indexOutOfBounds (places place).length i) ∧
        ((step.run Operation.run places).2 = some fault →
          (step.run Operation.run places).1 = places) := by
  refine ⟨readings_eq_listReadings capacity steps, fun other => ?_, fun places step fault => ?_⟩
  · rw [readings_eq_listReadings, readings_eq_listReadings]
  · exact ⟨Step.run_eq_fault_iff places step fault,
      Step.places_of_fault Operation.run places step fault⟩

/-- Two slots are filled, outgrown and used again, with a copy and a write past the end on the
way. -/
def crossingRun : List (Step Nat) :=
  [.operate 0 (.ofArray #[1, 2]), .clone 0 1, .operate 0 (.setLength 3 7), .operate 0 (.set 2 9),
    .operate 0 (.set 3 5), .operate 0 (.setLength 1 4)]

theorem readings_refine_lists_crossingRun :
    (readings 2 crossingRun).map (fun after => ((after.1 0).items, (after.1 1).items, after.2)) =
        [([1, 2], [], none), ([1, 2], [1, 2], none), ([7, 7, 7], [1, 2], none),
          ([7, 7, 9], [1, 2], none), ([7, 7, 9], [1, 2], some (.indexOutOfBounds 3 3)),
          ([4], [1, 2], none)] ∧
      readings 2 crossingRun = readings 0 crossingRun := by
  obtain ⟨asLists, anyCapacity, -⟩ := readings_refine_lists crossingRun 2
  refine ⟨?_, anyCapacity 0⟩
  rw [asLists]
  rfl

end Raster.Storage
