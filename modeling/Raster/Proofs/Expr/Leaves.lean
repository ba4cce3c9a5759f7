import Raster.Expr.Evaluation
import Raster.Proofs.Success

/-!
# The leaves of a tree

Size and reads of a tree depend on its leaves only. A tree has a size if it has leaves and these
agree on one, whatever constants, operators and casts stand between them. With other leaves in the
place of its own, a tree has the size and the pixels that these leaves give it.
-/

namespace Raster.Expr

variable {Leaf Other : PixelFormat → Type} {f : PixelFormat}

/-- The leaves of a tree from left to right, each with its format. -/
def leaves : {f : PixelFormat} → Expr Leaf f → List ((g : PixelFormat) × Leaf g)
  | _, const _ => []
  | f, leaf source => [⟨f, source⟩]
  | _, binary _ left right => left.leaves ++ right.leaves
  | _, cast _ inner => inner.leaves

theorem forall_leaves_binary (op : Operator f) (left right : Expr Leaf f)
    (property : (g : PixelFormat) × Leaf g → Prop) :
    (∀ l ∈ (binary op left right).leaves, property l) ↔
      (∀ l ∈ left.leaves, property l) ∧ ∀ l ∈ right.leaves, property l := by
  simp only [leaves, List.mem_append, or_imp, forall_and]

/-! ### Size -/

theorem commonSize_eq_none_iff (left right : Option Size) :
    commonSize left right = .ok none ↔ left = none ∧ right = none := by
  cases left with
  | none => simp [commonSize]
  | some s =>
    cases right with
    | none => simp [commonSize]
    | some t => by_cases same : s = t <;> simp [commonSize, same]

theorem commonSize_eq_some_iff (left right : Option Size) (size : Size) :
    commonSize left right = .ok (some size) ↔
      (left = some size ∧ right = some size) ∨ (left = some size ∧ right = none) ∨
        (left = none ∧ right = some size) := by
  cases left with
  | none => simp [commonSize]
  | some s =>
    cases right with
    | none => simp [commonSize]
    | some t =>
      by_cases same : s = t
      · simp [commonSize, same]
      · simp only [commonSize, if_neg same, Option.some.injEq, reduceCtorEq, and_false, false_and,
          or_false, false_iff, not_and]
        rintro rfl rfl
        exact same rfl

variable (sizeOf : {g : PixelFormat} → Leaf g → Size)

theorem size?_eq_none_iff (e : Expr Leaf f) : e.size? sizeOf = .ok none ↔ e.leaves = [] := by
  induction e with
  | const value => simp [size?, leaves]
  | leaf source => simp [size?, leaves]
  | binary op left right ihl ihr =>
    simp only [size?, bind_eq_ok_iff, commonSize_eq_none_iff, leaves, List.append_eq_nil_iff]
    constructor
    · rintro ⟨_, sizeLeft, _, sizeRight, rfl, rfl⟩
      exact ⟨ihl.mp sizeLeft, ihr.mp sizeRight⟩
    · rintro ⟨noLeft, noRight⟩
      exact ⟨none, ihl.mpr noLeft, none, ihr.mpr noRight, rfl, rfl⟩
  | cast conversion inner ih => exact ih

/-- A tree has a size exactly if it has leaves, and all of them have that size. -/
theorem size?_eq_some_iff (e : Expr Leaf f) (size : Size) :
    e.size? sizeOf = .ok (some size) ↔ e.leaves ≠ [] ∧ ∀ l ∈ e.leaves, sizeOf l.2 = size := by
  induction e with
  | const value => simp [size?, leaves]
  | leaf source => simp [size?, leaves]
  | binary op left right ihl ihr =>
    rw [forall_leaves_binary]
    simp only [size?, bind_eq_ok_iff, commonSize_eq_some_iff, leaves, ne_eq,
      List.append_eq_nil_iff]
    constructor
    · -- Both operands have the size, or one of them has it and the other has no leaves.
      rintro ⟨_, sizeLeft, _, sizeRight, ⟨rfl, rfl⟩ | ⟨rfl, rfl⟩ | ⟨rfl, rfl⟩⟩
      · obtain ⟨hasLeaves, all⟩ := ihl.mp sizeLeft
        exact ⟨fun noLeaves => hasLeaves noLeaves.1, all, (ihr.mp sizeRight).2⟩
      · obtain ⟨hasLeaves, all⟩ := ihl.mp sizeLeft
        rw [(size?_eq_none_iff sizeOf right).mp sizeRight]
        exact ⟨fun noLeaves => hasLeaves noLeaves.1, all, by simp⟩
      · obtain ⟨hasLeaves, all⟩ := ihr.mp sizeRight
        rw [(size?_eq_none_iff sizeOf left).mp sizeLeft]
        exact ⟨fun noLeaves => hasLeaves noLeaves.2, by simp, all⟩
    · rintro ⟨hasLeaves, allLeft, allRight⟩
      by_cases noLeft : left.leaves = []
      · have sizeRight := ihr.mpr ⟨fun noRight => hasLeaves ⟨noLeft, noRight⟩, allRight⟩
        exact ⟨none, (size?_eq_none_iff sizeOf left).mpr noLeft, some size, sizeRight, by simp⟩
      · have sizeLeft := ihl.mpr ⟨noLeft, allLeft⟩
        by_cases noRight : right.leaves = []
        · exact ⟨some size, sizeLeft, none, (size?_eq_none_iff sizeOf right).mpr noRight, by simp⟩
        · exact ⟨some size, sizeLeft, some size, ihr.mpr ⟨noRight, allRight⟩, by simp⟩
  | cast conversion inner ih => exact ih

/-- All leaves have the size of the tree. There is none to have another one, if it has no size. -/
theorem sizeOf_eq_of_size?_eq_ok (e : Expr Leaf f) (size? : Option Size)
    (computed : e.size? sizeOf = .ok size?) (default : Size) :
    ∀ l ∈ e.leaves, sizeOf l.2 = size?.getD default := by
  cases size? with
  | none =>
    rw [(size?_eq_none_iff sizeOf e).mp computed]
    simp
  | some size => exact ((size?_eq_some_iff sizeOf e size).mp computed).2

/-- A tree is refused a size exactly if two of its leaves have different ones. -/
theorem size?_eq_error_iff (e : Expr Leaf f) :
    (∃ refusal, e.size? sizeOf = .error refusal) ↔
      ∃ l ∈ e.leaves, ∃ m ∈ e.leaves, sizeOf l.2 ≠ sizeOf m.2 := by
  constructor
  · rintro ⟨refusal, refused⟩
    -- If all leaves had the size of the first one, the tree would have it too.
    apply Classical.byContradiction
    intro disagree
    have agree (l m) (memberL : l ∈ e.leaves) (memberM : m ∈ e.leaves) : sizeOf l.2 = sizeOf m.2 :=
      Classical.byContradiction fun different => disagree ⟨l, memberL, m, memberM, different⟩
    cases listed : e.leaves with
    | nil =>
      have unsized := (size?_eq_none_iff sizeOf e).mpr listed
      simp [refused] at unsized
    | cons first rest =>
      have member : first ∈ e.leaves := by simp [listed]
      have views : e.leaves ≠ [] := by simp [listed]
      have sized := (size?_eq_some_iff sizeOf e (sizeOf first.2)).mpr
        ⟨views, fun l other => agree l first other member⟩
      simp [refused] at sized
  · rintro ⟨l, memberL, m, memberM, different⟩
    cases computed : e.size? sizeOf with
    | error refusal => exact ⟨refusal, rfl⟩
    | ok size? =>
      have same := sizeOf_eq_of_size?_eq_ok sizeOf e size? computed (sizeOf m.2)
      exact absurd ((same l memberL).trans (same m memberM).symm) different

/-! ### Other leaves -/

theorem leaves_map (replace : {g : PixelFormat} → Leaf g → Other g) (e : Expr Leaf f) :
    (e.map replace).leaves = e.leaves.map fun l => ⟨l.1, replace l.2⟩ := by
  induction e with
  | const value => rfl
  | leaf source => rfl
  | binary op left right ihl ihr =>
    simp only [map] at ihl ihr
    simp only [map, bind, leaves, ihl, ihr, List.map_append]
  | cast conversion inner ih => exact ih

theorem size?_map (replace : {g : PixelFormat} → Leaf g → Other g)
    (sizeOther : {g : PixelFormat} → Other g → Size) (e : Expr Leaf f) :
    (e.map replace).size? sizeOther = e.size? fun source => sizeOther (replace source) := by
  induction e with
  | const value => rfl
  | leaf source => rfl
  | binary op left right ihl ihr =>
    simp only [map] at ihl ihr
    simp only [map, bind, size?, ihl, ihr]
  | cast conversion inner ih => exact ih

theorem eval_map (replace : {g : PixelFormat} → Leaf g → Other g)
    (readOther : {g : PixelFormat} → Other g → Nat → Except Fault (Pixel g)) (i : Nat)
    (e : Expr Leaf f) :
    (e.map replace).eval readOther i = e.eval (fun source => readOther (replace source)) i := by
  induction e with
  | const value => rfl
  | leaf source => rfl
  | binary op left right ihl ihr =>
    simp only [map] at ihl ihr
    simp only [map, bind, eval, ihl, ihr]
  | cast conversion inner ih =>
    simp only [map] at ih
    simp only [map, bind, eval, ih]
    rfl

/-- A tree that is read at one index depends on the reads of its leaves at that index. -/
theorem eval_congr (read other : {g : PixelFormat} → Leaf g → Nat → Except Fault (Pixel g))
    (i : Nat) (e : Expr Leaf f) (same : ∀ l ∈ e.leaves, read l.2 i = other l.2 i) :
    e.eval read i = e.eval other i := by
  induction e with
  | const value => rfl
  | leaf source => exact same ⟨_, source⟩ (by simp [leaves])
  | binary op left right ihl ihr =>
    obtain ⟨sameLeft, sameRight⟩ := (forall_leaves_binary op left right _).mp same
    simp only [eval, ihl sameLeft, ihr sameRight]
  | cast conversion inner ih =>
    simp only [eval, ih same]
    rfl

/-- A tree whose leaves can all be read can be read: no operator and no conversion faults. -/
theorem eval_total (read : {g : PixelFormat} → Leaf g → Nat → Except Fault (Pixel g)) (i : Nat)
    (e : Expr Leaf f) (total : ∀ l ∈ e.leaves, ∃ p, read l.2 i = .ok p) :
    ∃ p, e.eval read i = .ok p := by
  induction e with
  | const value => exact ⟨value, rfl⟩
  | leaf source => exact total ⟨_, source⟩ (by simp [leaves])
  | binary op left right ihl ihr =>
    obtain ⟨totalLeft, totalRight⟩ := (forall_leaves_binary op left right _).mp total
    obtain ⟨p, readLeft⟩ := ihl totalLeft
    obtain ⟨q, readRight⟩ := ihr totalRight
    exact ⟨op.apply p q, by simp only [eval, readLeft, readRight]; rfl⟩
  | cast conversion inner ih =>
    obtain ⟨p, readInner⟩ := ih total
    exact ⟨conversion.apply p, by simp only [eval, readInner]; rfl⟩

/-- Nothing but a leaf faults: whether a tree can be read at an index depends neither on its operators
and conversions nor on the pixels they are applied to. -/
theorem eval_eq_ok_iff (read : {g : PixelFormat} → Leaf g → Nat → Except Fault (Pixel g)) (i : Nat)
    (e : Expr Leaf f) :
    (∃ p, e.eval read i = .ok p) ↔ ∀ l ∈ e.leaves, ∃ p, read l.2 i = .ok p := by
  refine ⟨?_, e.eval_total read i⟩
  rintro ⟨p, returned⟩
  induction e with
  | const value => simp [leaves]
  | leaf source => simpa [leaves] using ⟨p, returned⟩
  | binary op left right ihl ihr =>
    -- Both operands are read, also where one of them would settle the result.
    simp only [eval, bind_eq_ok_iff] at returned
    obtain ⟨q, readLeft, r, readRight, -⟩ := returned
    exact (forall_leaves_binary op left right _).mpr ⟨ihl q readLeft, ihr r readRight⟩
  | cast conversion inner ih =>
    cases readInner : inner.eval read i with
    | error fault =>
      simp only [eval, readInner] at returned
      cases returned
    | ok q => exact ih q readInner

/-- A tree without leaves has one value. There is nothing to read, and no index that matters. -/
theorem eval_of_no_leaves (e : Expr Leaf f) (noLeaves : e.leaves = []) :
    ∃ value, ∀ (read : {g : PixelFormat} → Leaf g → Nat → Except Fault (Pixel g)) (i : Nat),
      e.eval read i = .ok value := by
  induction e with
  | const value => exact ⟨value, fun _ _ => rfl⟩
  | leaf source => cases noLeaves
  | binary op left right ihl ihr =>
    obtain ⟨noLeft, noRight⟩ := List.append_eq_nil_iff.mp noLeaves
    obtain ⟨p, readLeft⟩ := ihl noLeft
    obtain ⟨q, readRight⟩ := ihr noRight
    refine ⟨op.apply p q, fun read i => ?_⟩
    simp only [eval, readLeft, readRight]
    rfl
  | cast conversion inner ih =>
    obtain ⟨p, readInner⟩ := ih noLeaves
    refine ⟨conversion.apply p, fun read i => ?_⟩
    simp only [eval, readInner]
    rfl

end Raster.Expr
