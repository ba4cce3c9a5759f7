import Raster.Proofs.Expr.Leaves

/-!
# What decides the size of a tree

A tree without leaves has no size, and a tree whose leaves agree has the size of the leaves. In all
other trees some binary nodes clash: both operands have a size, and not the same. Operands are asked
for their sizes from left to right and before the node itself, so the first of these nodes in
post-order is the one that is reported. Casts and operands without leaves have no say in this.
-/

namespace Raster.Expr

variable {Leaf : PixelFormat → Type} {f g : PixelFormat}

/-- The operands of a binary node. -/
structure Node (Leaf : PixelFormat → Type) where
  format : PixelFormat
  left : Expr Leaf format
  right : Expr Leaf format

/-- The binary nodes of a tree in post-order: those of the left operand, those of the right operand,
and the node itself. -/
def nodes : {f : PixelFormat} → Expr Leaf f → List (Node Leaf)
  | _, const _ => []
  | _, leaf _ => []
  | f, binary _ left right => left.nodes ++ right.nodes ++ [⟨f, left, right⟩]
  | _, cast _ inner => inner.nodes

/-- The tree with casts, and with operands that have no leaves, inserted anywhere. Where a cast
changes the format of operands, constants and operators of the new format take the place of the
old. -/
inductive Padded : {f g : PixelFormat} → Expr Leaf f → Expr Leaf g → Prop where
  | const {f g : PixelFormat} (value : Pixel f) (other : Pixel g) :
    Padded (const value : Expr Leaf f) (const other)
  | leaf {f : PixelFormat} (source : Leaf f) : Padded (leaf source) (leaf source)
  | binary {f g : PixelFormat} (op : Operator f) (op' : Operator g) {left right : Expr Leaf f}
    {left' right' : Expr Leaf g} (onLeft : Padded left left') (onRight : Padded right right') :
    Padded (binary op left right) (binary op' left' right')
  | cast {f f' g g' : PixelFormat} (conversion : Conversion f.kind f'.kind)
    (conversion' : Conversion g.kind g'.kind) {inner : Expr Leaf f} {inner' : Expr Leaf g}
    (inside : Padded inner inner') :
    Padded (cast conversion inner : Expr Leaf f') (cast conversion' inner' : Expr Leaf g')
  | castInserted {f g g' : PixelFormat} (conversion : Conversion g.kind g'.kind) {e : Expr Leaf f}
    {e' : Expr Leaf g} (inside : Padded e e') : Padded e (cast conversion e' : Expr Leaf g')
  | leftInserted {f g : PixelFormat} (op : Operator g) (constant : Expr Leaf g)
    (noLeaves : constant.leaves = []) {e : Expr Leaf f} {e' : Expr Leaf g} (inside : Padded e e') :
    Padded e (binary op constant e')
  | rightInserted {f g : PixelFormat} (op : Operator g) (constant : Expr Leaf g)
    (noLeaves : constant.leaves = []) {e : Expr Leaf f} {e' : Expr Leaf g} (inside : Padded e e') :
    Padded e (binary op e' constant)

variable (sizeOf : {h : PixelFormat} → Leaf h → Size)

/-- The sizes of the leaves from left to right. -/
def leafSizes (e : Expr Leaf f) : List Size :=
  e.leaves.map fun l => sizeOf l.2

/-- There are leaves, and all of them have the size. -/
def HasSize (e : Expr Leaf f) (size : Size) : Prop :=
  e.leafSizes sizeOf ≠ [] ∧ ∀ other ∈ e.leafSizes sizeOf, other = size

instance (e : Expr Leaf f) (size : Size) : Decidable (e.HasSize sizeOf size) :=
  inferInstanceAs (Decidable (_ ∧ _))

/-- Both operands have a size, and these differ. -/
def Node.Clashes (node : Node Leaf) : Prop :=
  ∃ left ∈ node.left.leafSizes sizeOf, ∃ right ∈ node.right.leafSizes sizeOf,
    node.left.HasSize sizeOf left ∧ node.right.HasSize sizeOf right ∧ left ≠ right

instance (node : Node Leaf) : Decidable (node.Clashes sizeOf) :=
  inferInstanceAs (Decidable (∃ left ∈ _, ∃ right ∈ _, _))

def firstClash? (e : Expr Leaf f) : Option (Node Leaf) :=
  e.nodes.find? fun node => node.Clashes sizeOf

/-! ### Leaves and nodes -/

theorem hasSize_iff (e : Expr Leaf f) (size : Size) :
    e.HasSize sizeOf size ↔ e.size? sizeOf = .ok (some size) := by
  rw [size?_eq_some_iff]
  simp only [HasSize, leafSizes, ne_eq, List.map_eq_nil_iff, List.forall_mem_map]

/-- The leftmost leaf has the size that all have. -/
theorem HasSize.head?_eq {e : Expr Leaf f} {size : Size} (sized : e.HasSize sizeOf size) :
    (e.leafSizes sizeOf).head? = some size := by
  obtain ⟨hasLeaves, all⟩ := sized
  rw [List.head?_eq_some_head hasLeaves, all _ (List.head_mem hasLeaves)]

theorem clashes_iff (node : Node Leaf) :
    node.Clashes sizeOf ↔ ∃ left right, left ≠ right ∧
      node.left.size? sizeOf = .ok (some left) ∧ node.right.size? sizeOf = .ok (some right) := by
  simp only [← hasSize_iff]
  constructor
  · rintro ⟨left, -, right, -, sizedLeft, sizedRight, differ⟩
    exact ⟨left, right, differ, sizedLeft, sizedRight⟩
  · rintro ⟨left, right, differ, sizedLeft, sizedRight⟩
    exact ⟨left, List.mem_of_mem_head? (sizedLeft.head?_eq), right,
      List.mem_of_mem_head? (sizedRight.head?_eq), sizedLeft, sizedRight, differ⟩

theorem commonSize_eq_error_iff (left right : Option Size) (refusal : Error) :
    commonSize left right = .error refusal ↔ ∃ s t, s ≠ t ∧ left = some s ∧ right = some t ∧
      refusal = .geometryMismatch s t := by
  constructor
  · intro refused
    cases left with
    | none => cases refused
    | some s =>
      cases right with
      | none => cases refused
      | some t =>
        by_cases same : s = t
        · simp [commonSize, same] at refused
        · rw [commonSize, if_neg same] at refused
          exact ⟨s, t, same, rfl, rfl, (Except.error.inj refused).symm⟩
  · rintro ⟨s, t, differ, rfl, rfl, rfl⟩
    exact if_neg differ

theorem firstClash?_binary (op : Operator f) (left right : Expr Leaf f) :
    (binary op left right).firstClash? sizeOf =
      ((left.firstClash? sizeOf).or (right.firstClash? sizeOf)).or
        (if Node.Clashes sizeOf ⟨f, left, right⟩ then some ⟨f, left, right⟩ else none) := by
  unfold firstClash?
  rw [nodes, List.find?_append, List.find?_append]
  by_cases clash : Node.Clashes sizeOf ⟨f, left, right⟩ <;> simp [clash]

/-! ### The node that is reported -/

/-- What is told of a node that clashes: the sizes of the leftmost leaves of its operands. -/
def Node.Reports (node : Node Leaf) (refusal : Error) : Prop :=
  ∃ left right, (node.left.leafSizes sizeOf).head? = some left ∧
    (node.right.leafSizes sizeOf).head? = some right ∧ refusal = .geometryMismatch left right

/-- The node of two operands that are accepted is refused if it clashes, and otherwise accepted. -/
theorem commonSize_cases (left right : Expr Leaf f) (s? t? : Option Size)
    (sizeLeft : left.size? sizeOf = .ok s?) (sizeRight : right.size? sizeOf = .ok t?) :
    ((∃ size?, commonSize s? t? = .ok size?) ∧ ¬Node.Clashes sizeOf ⟨f, left, right⟩) ∨
      ∃ refusal, commonSize s? t? = .error refusal ∧ Node.Clashes sizeOf ⟨f, left, right⟩ ∧
        Node.Reports sizeOf ⟨f, left, right⟩ refusal := by
  cases compared : commonSize s? t? with
  | ok size? =>
    refine .inl ⟨⟨size?, rfl⟩, fun clash => ?_⟩
    obtain ⟨s, t, differ, hasLeft, hasRight⟩ := (clashes_iff sizeOf _).mp clash
    cases sizeLeft.symm.trans hasLeft
    cases sizeRight.symm.trans hasRight
    have refused := (commonSize_eq_error_iff _ _ _).mpr ⟨s, t, differ, rfl, rfl, rfl⟩
    cases compared.symm.trans refused
  | error refusal =>
    obtain ⟨s, t, differ, rfl, rfl, told⟩ := (commonSize_eq_error_iff _ _ _).mp compared
    have clash := (clashes_iff sizeOf ⟨f, left, right⟩).mpr ⟨s, t, differ, sizeLeft, sizeRight⟩
    have sizedLeft := (left.hasSize_iff sizeOf s).mpr sizeLeft
    have sizedRight := (right.hasSize_iff sizeOf t).mpr sizeRight
    exact .inr ⟨refusal, rfl, clash, s, t, sizedLeft.head?_eq, sizedRight.head?_eq, told⟩

/-- Either nothing clashes and the tree is accepted, or it is refused for the first node that clashes.
The induction follows the order in which operands are asked for their sizes. -/
theorem size?_cases (e : Expr Leaf f) :
    ((∃ size?, e.size? sizeOf = .ok size?) ∧ e.firstClash? sizeOf = none) ∨
      ∃ refusal node, e.size? sizeOf = .error refusal ∧ e.firstClash? sizeOf = some node ∧
        node.Reports sizeOf refusal := by
  induction e with
  | const value => exact .inl ⟨⟨_, rfl⟩, rfl⟩
  | leaf source => exact .inl ⟨⟨_, rfl⟩, rfl⟩
  | cast conversion inner ih => exact ih
  | binary op left right ihl ihr =>
    rw [firstClash?_binary]
    obtain ⟨⟨s?, sizeLeft⟩, noneLeft⟩ | ⟨refusal, node, refused, found, reports⟩ := ihl
    · obtain ⟨⟨t?, sizeRight⟩, noneRight⟩ | ⟨refusal, node, refused, found, reports⟩ := ihr
      · -- Nothing clashes below the node, so the two sizes decide.
        have whole : (binary op left right).size? sizeOf = commonSize s? t? := by
          rw [size?, sizeLeft, sizeRight]
          rfl
        rw [whole, noneLeft, noneRight]
        obtain ⟨accepted, clear⟩ | ⟨refusal, refused, clash, reports⟩ :=
          commonSize_cases sizeOf left right s? t? sizeLeft sizeRight
        · exact .inl ⟨accepted, if_neg clear⟩
        · exact .inr ⟨refusal, _, refused, if_pos clash, reports⟩
      · refine .inr ⟨refusal, node, ?_, ?_, reports⟩
        · rw [size?, sizeLeft, refused]
          rfl
        · rw [noneLeft, found]
          rfl
    · refine .inr ⟨refusal, node, ?_, ?_, reports⟩
      · rw [size?, refused]
        rfl
      · rw [found]
        rfl

theorem size?_eq_error_iff_firstClash (e : Expr Leaf f) (refusal : Error) :
    e.size? sizeOf = .error refusal ↔
      ∃ node, e.firstClash? sizeOf = some node ∧ node.Reports sizeOf refusal := by
  obtain ⟨⟨size?, accepted⟩, clear⟩ | ⟨told, node, refused, found, reports⟩ := e.size?_cases sizeOf
  · simp [accepted, clear]
  · constructor
    · intro same
      cases refused.symm.trans same
      exact ⟨node, found, reports⟩
    · rintro ⟨other, foundOther, left, right, leftmost, rightmost, rfl⟩
      cases found.symm.trans foundOther
      obtain ⟨s, t, firstLeft, firstRight, rfl⟩ := reports
      cases firstLeft.symm.trans leftmost
      cases firstRight.symm.trans rightmost
      exact refused

/-! ### What has no say -/

theorem commonSize_none_right (size? : Option Size) : commonSize size? none = .ok size? := by
  cases size? <;> rfl

theorem Padded.size?_eq {e : Expr Leaf f} {e' : Expr Leaf g} (padded : Padded e e') :
    e'.size? sizeOf = e.size? sizeOf := by
  induction padded with
  | const value other => rfl
  | leaf source => rfl
  | binary op op' onLeft onRight ihl ihr => simp only [size?, ihl, ihr]
  | cast conversion conversion' inside ih => exact ih
  | castInserted conversion inside ih => exact ih
  | @leftInserted f g op constant noLeaves e e' inside ih =>
    rw [size?, (size?_eq_none_iff sizeOf constant).mpr noLeaves, ih]
    cases e.size? sizeOf <;> rfl
  | @rightInserted f g op constant noLeaves e e' inside ih =>
    rw [size?, (size?_eq_none_iff sizeOf constant).mpr noLeaves, ih]
    cases e.size? sizeOf with
    | error refusal => rfl
    | ok size? => exact commonSize_none_right size?

/-- The leaves of a tree decide its size. Without leaves it has none, and with leaves that agree it
has theirs. All other trees are refused for the first node in post-order whose operands have sizes
that differ, and this tells the sizes of the leftmost leaves of the operands. Casts and constants
inserted anywhere change nothing. -/
theorem size?_decided_by_leaves (e : Expr Leaf f) :
    (e.size? sizeOf = .ok none ↔ e.leaves = []) ∧
    (∀ size, e.size? sizeOf = .ok (some size) ↔
      e.leaves ≠ [] ∧ ∀ l ∈ e.leaves, sizeOf l.2 = size) ∧
    (∀ refusal, e.size? sizeOf = .error refusal ↔
      ∃ node left right, e.firstClash? sizeOf = some node ∧
        (node.left.leafSizes sizeOf).head? = some left ∧
        (node.right.leafSizes sizeOf).head? = some right ∧
        refusal = .geometryMismatch left right) ∧
    ∀ (g : PixelFormat) (e' : Expr Leaf g), Padded e e' → e'.size? sizeOf = e.size? sizeOf := by
  refine ⟨e.size?_eq_none_iff sizeOf, e.size?_eq_some_iff sizeOf, fun refusal => ?_,
    fun g e' padded => padded.size?_eq sizeOf⟩
  rw [size?_eq_error_iff_firstClash]
  constructor
  · rintro ⟨node, found, left, right, leftmost, rightmost, told⟩
    exact ⟨node, left, right, found, leftmost, rightmost, told⟩
  · rintro ⟨node, left, right, found, leftmost, rightmost, told⟩
    exact ⟨node, found, left, right, leftmost, rightmost, told⟩

/-- A window less three, plus the product of the image and a line of it. The operands of the product
and those of the sum have different sizes. -/
def mismatched : Expr (WithSelf .gray8 ViewLeaf) .gray8 :=
  let window : View (Pixel .gray8) := (Image.zeroed 2 2).asView
  let line : View (Pixel .gray8) := (Image.zeroed 3 1).asView
  .binary .plus
    (.binary .minus (.leaf (.other window)) (.const (Level.ofNat 3 : Level 8)))
    (.binary .times (.leaf .self) (.leaf (.other line)))

/-- The same with wider pixels, and with constants added to the product. -/
def mismatchedWide : Expr (WithSelf .gray8 ViewLeaf) .gray8 :=
  let widen : Conversion PixelFormat.gray8.kind PixelFormat.gray16.kind := .number _ _
  let narrow : Conversion PixelFormat.gray16.kind PixelFormat.gray8.kind := .number _ _
  let window : View (Pixel .gray8) := (Image.zeroed 2 2).asView
  let line : View (Pixel .gray8) := (Image.zeroed 3 1).asView
  .cast narrow (.binary .plus
    (.binary .minus (.cast widen (.leaf (.other window))) (.const (Level.ofNat 3 : Level 16)))
    (.binary .plus
      (.binary .plus (.const (Level.ofNat 1 : Level 16)) (.const (Level.ofNat 300 : Level 16)))
      (.binary .times (.cast widen (.leaf .self)) (.cast widen (.leaf (.other line))))))

/-- The product comes before the sum in post-order, so its operands are reported. -/
theorem size?_decided_by_leaves_mismatched :
    let sizeOf {h : PixelFormat} (source : WithSelf .gray8 ViewLeaf h) : Size :=
      source.sizeOf ⟨6, 4⟩
    mismatched.size? sizeOf = .error (.geometryMismatch ⟨6, 4⟩ ⟨3, 1⟩) ∧
      Padded mismatched mismatchedWide ∧
      mismatchedWide.size? sizeOf = .error (.geometryMismatch ⟨6, 4⟩ ⟨3, 1⟩) := by
  intro sizeOf
  obtain ⟨-, -, refused_iff, unpadded⟩ := size?_decided_by_leaves sizeOf mismatched
  have refused : mismatched.size? sizeOf = .error (.geometryMismatch ⟨6, 4⟩ ⟨3, 1⟩) :=
    (refused_iff _).mpr ⟨_, ⟨6, 4⟩, ⟨3, 1⟩, rfl, rfl, rfl, rfl⟩
  have padded : Padded mismatched mismatchedWide :=
    .castInserted _ (.binary _ _
      (.binary _ _ (.castInserted _ (.leaf _)) (.const _ _))
      (.leftInserted _ _ rfl
        (.binary _ _ (.castInserted _ (.leaf _)) (.castInserted _ (.leaf _)))))
  exact ⟨refused, padded, (unpadded _ _ padded).trans refused⟩

end Raster.Expr
