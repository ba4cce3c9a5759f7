import Raster.Slice

/-!
# Pixel storage

A storage holds a sequence of items. Up to a fixed capacity the items lie inline, in slots that
always number as many as the capacity; a longer sequence lies on the heap. Each change of length
selects the kind anew.

The slots past the length are hidden: no read shows them, and a write leaves them alone. They are
part of the storage all the same, since a change of length within the inline kind that gives no fill
exposes them again.
-/

namespace Raster

inductive StorageKind where
  | inline
  | heap
  deriving DecidableEq

namespace StorageKind

def name : StorageKind → String
  | inline => "inline"
  | heap => "heap"

end StorageKind

/-- What is told of a change of kind. -/
structure Reselection where
  oldLength : Nat
  newLength : Nat
  oldKind : StorageKind
  newKind : StorageKind
  deriving DecidableEq

namespace Reselection

def message (r : Reselection) : String :=
  s!"storage: {r.oldLength} -> {r.newLength} elements, {r.oldKind.name} -> {r.newKind.name}"

end Reselection

inductive Storage (α : Type) (capacity : Nat) where
  /-- The first `length` slots are the items. -/
  | inline (slots : Vector α capacity) (length : Nat) (length_le : length ≤ capacity)
  /-- The items themselves. -/
  | heap (items : Array α)

namespace Storage

variable {α : Type} {capacity : Nat}

def length : Storage α capacity → Nat
  | inline _ n _ => n
  | heap items => items.size

def isEmpty (s : Storage α capacity) : Bool :=
  s.length == 0

def kind : Storage α capacity → StorageKind
  | inline .. => .inline
  | heap _ => .heap

def isInline (s : Storage α capacity) : Bool :=
  s.kind == .inline

/-- The visible items. -/
def items : Storage α capacity → Slice α
  | inline slots n h => ⟨slots.toArray, 0, n, by simpa using h⟩
  | heap items => ⟨items, 0, items.size, by simp⟩

/-- The visible items as a list, which is all that equal reads can tell of a storage. -/
def toList (s : Storage α capacity) : List α :=
  s.items.toList

/-! ### Construction -/

/-- Items that all have one value. An inline storage has it in its hidden slots too. -/
def filled (length : Nat) (value : α) : Storage α capacity :=
  if h : length ≤ capacity then inline (Vector.replicate capacity value) length h
  else heap (Array.replicate length value)

/-- No items, and slots of default values. -/
def blank [Inhabited α] : Storage α capacity :=
  inline (Vector.replicate capacity default) 0 (Nat.zero_le _)

/-- The given items. An inline storage has default values in its hidden slots. -/
def ofArray [Inhabited α] (items : Array α) : Storage α capacity :=
  if h : items.size ≤ capacity then
    inline ((items ++ Array.replicate (capacity - items.size) default).toVector.cast
      (by simp; omega)) items.size h
  else heap items

/-! ### Change of length -/

/-- The first `length` items, followed by default values where there were fewer. -/
def resized [Inhabited α] (items : Array α) (length : Nat) : Array α :=
  items.take length ++ Array.replicate (length - items.size) default

/-- The storage with another length, all items of which have the fill if one is given. Without one,
an inline storage that stays inline keeps its slots, a heap storage that stays on the heap keeps
its first items, and a change of kind starts from default values. Only a change of kind is told. -/
def setLength [Inhabited α] (s : Storage α capacity) (length : Nat) (fill : Option α) :
    Storage α capacity × Option Reselection :=
  let told : Reselection :=
    ⟨s.length, length, s.kind, if length ≤ capacity then .inline else .heap⟩
  match s with
  | inline slots _ _ =>
    if h : length ≤ capacity then
      match fill with
      -- The fill reaches the items only: hidden slots keep what they hold.
      | some v => (inline (slots.mapIdx fun i old => if i < length then v else old) length h, none)
      | none => (inline slots length h, none)
    -- The items no longer fit into the slots.
    else (filled length (fill.getD default), some told)
  | heap items =>
    -- The items fit into slots from now on.
    if length ≤ capacity then (filled length (fill.getD default), some told)
    else
      match fill with
      | some v => (heap (Array.replicate length v), none)
      | none => (heap (resized items length), none)

/-! ### Writing -/

/-- Writes one item, if it is there. -/
def put (s : Storage α capacity) (i : Nat) (value : α) : Storage α capacity :=
  match s with
  | inline slots n h =>
    if hi : i < n then inline (slots.set i value (Nat.lt_of_lt_of_le hi h)) n h
    else inline slots n h
  | heap items => heap (items.setIfInBounds i value)

/-- Writes one item, which must be there. -/
def set (s : Storage α capacity) (i : Nat) (value : α) : Except Fault (Storage α capacity) :=
  if i < s.length then .ok (s.put i value) else .error (.indexOutOfBounds s.length i)

/-- Replaces every item by what the rule makes of its index and old value. -/
def modify (s : Storage α capacity) (rule : Nat → α → α) : Storage α capacity :=
  match s with
  | inline slots n h => inline (slots.mapIdx fun i old => if i < n then rule i old else old) n h
  | heap items => heap (items.mapIdx rule)

/-- A copy of the items of a slice: as many default values, all of which are then overwritten. -/
def ofSlice [Inhabited α] (source : Slice α) : Storage α capacity :=
  (filled source.length default).modify fun i old => source.toArray[i]?.getD old

/-- Writes the items at the given indices in order, each with what the rule makes of the storage so
far. A fault of the rule ends the writing. -/
def writeEachOf (rule : Storage α capacity → Nat → Except Fault α) :
    List Nat → Storage α capacity → Storage α capacity × Option Fault
  | [], s => (s, none)
  | i :: rest, s =>
    match rule s i with
    | .ok value => writeEachOf rule rest (s.put i value)
    | .error fault => (s, some fault)

/-- Writes every item in order, each with what the rule makes of the storage so far. -/
def writeEach (s : Storage α capacity) (rule : Storage α capacity → Nat → Except Fault α) :
    Storage α capacity × Option Fault :=
  writeEachOf rule (List.range s.length) s

/-- The text that tells kind and length, but no items. -/
def listing (s : Storage α capacity) : String :=
  s!"Storage::{s.kind.name}(len={s.length}, capacity={capacity})"

end Storage

end Raster
