import Mathlib.Algebra.MvPolynomial.Variables
import Raster.Proofs.Expr.Totality
import Raster.Proofs.Image.Visible
import Raster.Proofs.Pixel.Words

/-!
# Saturating sums and products

Arithmetic on levels saturates at every node of a tree. All the same, a tree of sums and products has
the value that it has in the natural numbers, limited once at the end: what an early limit cuts off
could only have taken the result further beyond the limit, unless it were multiplied by zero, and
then it does not matter. So trees that are the same polynomial have the same value.

A polynomial says nothing of the size of an image. A view that is multiplied by zero is not in the
polynomial, but the tree takes its size from that view too. Rearranging a tree by the laws of sums
and products neither adds nor loses a view.
-/

namespace Raster

/-! ### Limits -/

theorem min_add_min (limit m n : Nat) :
    min (min m limit + min n limit) limit = min (m + n) limit := by
  omega

theorem min_mul_min (limit m n : Nat) :
    min (min m limit * min n limit) limit = min (m * n) limit := by
  -- Zero takes away whatever the other factor has lost.
  rcases Nat.eq_zero_or_pos m with rfl | mPos
  · simp
  rcases Nat.eq_zero_or_pos n with rfl | nPos
  · simp
  rcases Nat.eq_zero_or_pos limit with rfl | limitPos
  · simp
  by_cases inside : m ≤ limit ∧ n ≤ limit
  · rw [Nat.min_eq_left inside.1, Nat.min_eq_left inside.2]
  · -- A factor that reaches the limit stays there when it is multiplied by a positive one.
    have limited : limit ≤ min m limit * min n limit := by
      rcases not_and_or.mp inside with beyond | beyond
      · rw [Nat.min_eq_right (Nat.le_of_not_le beyond)]
        exact Nat.le_mul_of_pos_right limit (Nat.lt_min.mpr ⟨nPos, limitPos⟩)
      · rw [Nat.min_eq_right (Nat.le_of_not_le beyond)]
        exact Nat.le_mul_of_pos_left limit (Nat.lt_min.mpr ⟨mPos, limitPos⟩)
    have exact : limit ≤ m * n :=
      limited.trans (Nat.mul_le_mul (Nat.min_le_left ..) (Nat.min_le_left ..))
    rw [Nat.min_eq_right limited, Nat.min_eq_right exact]

namespace Expr

variable {Leaf : PixelFormat → Type} {f : PixelFormat} {bits : Nat}

/-! ### Polynomials -/

/-- The tree has no other nodes than constants, leaves, sums and products. -/
inductive IsPolynomial : Expr Leaf f → Prop where
  | const (value : Pixel f) : IsPolynomial (const value)
  | leaf (source : Leaf f) : IsPolynomial (leaf source)
  | plus {left right : Expr Leaf f} (onLeft : IsPolynomial left) (onRight : IsPolynomial right) :
    IsPolynomial (binary .plus left right)
  | times {left right : Expr Leaf f} (onLeft : IsPolynomial left)
    (onRight : IsPolynomial right) : IsPolynomial (binary .times left right)

theorem isPolynomial_plus_iff (left right : Expr Leaf f) :
    (binary .plus left right).IsPolynomial ↔ left.IsPolynomial ∧ right.IsPolynomial :=
  ⟨fun | .plus onLeft onRight => ⟨onLeft, onRight⟩, fun ⟨onLeft, onRight⟩ => .plus onLeft onRight⟩

theorem isPolynomial_times_iff (left right : Expr Leaf f) :
    (binary .times left right).IsPolynomial ↔ left.IsPolynomial ∧ right.IsPolynomial :=
  ⟨fun | .times onLeft onRight => ⟨onLeft, onRight⟩, fun ⟨onLeft, onRight⟩ => .times onLeft onRight⟩

/-- The value of such a tree with numbers of any sort in the place of constants and leaves. A node
of another sort counts as zero. -/
def interpret {R : Type*} [CommSemiring R] :
    {f : PixelFormat} → (Pixel f → R) → (Leaf f → R) → Expr Leaf f → R
  | _, constant, _, const value => constant value
  | _, _, unknown, leaf source => unknown source
  | _, constant, unknown, binary .plus left right =>
    left.interpret constant unknown + right.interpret constant unknown
  | _, constant, unknown, binary .times left right =>
    left.interpret constant unknown * right.interpret constant unknown
  | _, _, _, binary .minus _ _ => 0
  | _, _, _, binary .divide _ _ => 0
  | _, _, _, binary (.modulo _) _ _ => 0
  | _, _, _, cast _ _ => 0

/-- The natural number that the tree amounts to in one channel, where the leaves hold the given
numbers and nothing is limited. -/
def exactValue (e : Expr Leaf f) (c : Fin f.channelCount) (level : Leaf f → Nat) : Nat :=
  e.interpret (fun value => value.channel c) level

/-- The polynomial of the tree in one channel, whose variables are the leaves. -/
noncomputable def polynomial (e : Expr Leaf f) (c : Fin f.channelCount) :
    MvPolynomial (Leaf f) Nat :=
  e.interpret (fun value => .C (value.channel c)) .X

/-- The exact value of a tree is that of its polynomial. -/
theorem eval_polynomial {e : Expr Leaf f} (isPolynomial : e.IsPolynomial)
    (c : Fin f.channelCount) (level : Leaf f → Nat) :
    MvPolynomial.eval level (e.polynomial c) = e.exactValue c level := by
  rw [polynomial, exactValue]
  induction isPolynomial with
  | const value => exact MvPolynomial.eval_C _
  | leaf source => exact MvPolynomial.eval_X _
  | plus _ _ left right => simp only [interpret, map_add, left, right]
  | times _ _ left right => simp only [interpret, map_mul, left, right]

/-- A leaf that occurs in the polynomial is a leaf of the tree. The converse fails, since a product
with zero drops the leaves of its other factor. -/
theorem mem_leaves_of_mem_vars {e : Expr Leaf f} (isPolynomial : e.IsPolynomial)
    (c : Fin f.channelCount) (source : Leaf f) (occurs : source ∈ (e.polynomial c).vars) :
    ⟨f, source⟩ ∈ e.leaves := by
  classical
  rw [polynomial] at occurs
  induction isPolynomial with
  | const value =>
    rw [interpret, MvPolynomial.vars_C] at occurs
    cases occurs
  | leaf other =>
    rw [interpret, MvPolynomial.vars_X, Finset.mem_singleton] at occurs
    simp [leaves, occurs]
  | plus _ _ left right =>
    rcases Finset.mem_union.mp (MvPolynomial.vars_add_subset _ _ occurs) with inLeft | inRight
    · exact List.mem_append_left _ (left inLeft)
    · exact List.mem_append_right _ (right inRight)
  | times _ _ left right =>
    rcases Finset.mem_union.mp (MvPolynomial.vars_mul _ _ occurs) with inLeft | inRight
    · exact List.mem_append_left _ (left inLeft)
    · exact List.mem_append_right _ (right inRight)

/-! ### Values -/

/-- What a read yields in one channel, where it yields a pixel. -/
def channelOf (c : Fin f.channelCount) : Except Fault (Pixel f) → Nat
  | .ok p => p.channel c
  | .error _ => 0

/-- Evaluation, which limits at each node, yields the exact value limited once. -/
theorem channel_of_eval (levels : f.HasLevels bits)
    (read : {g : PixelFormat} → Leaf g → Nat → Except Fault (Pixel g)) (i : Nat)
    {e : Expr Leaf f} (isPolynomial : e.IsPolynomial) (p : Pixel f)
    (returned : e.eval read i = .ok p) (c : Fin f.channelCount) :
    p.channel c =
      min (e.exactValue c fun source => channelOf c (read source i)) (Level.limit bits) := by
  rw [exactValue]
  induction isPolynomial generalizing p with
  | const value =>
    obtain rfl := (pure_eq_ok_iff value p).mp returned
    exact (Nat.min_eq_left (value.channel_le levels c)).symm
  | leaf source =>
    have held : read source i = .ok p := returned
    rw [interpret, held]
    exact (Nat.min_eq_left (p.channel_le levels c)).symm
  | plus _ _ left right =>
    simp only [eval, bind_eq_ok_iff, pure_eq_ok_iff] at returned
    obtain ⟨q, readLeft, r, readRight, rfl⟩ := returned
    calc (q + r).channel c = min (q.channel c + r.channel c) (Level.limit bits) :=
          q.channel_add levels r c
      _ = _ := by rw [left q readLeft, right r readRight, min_add_min, interpret]
  | times _ _ left right =>
    simp only [eval, bind_eq_ok_iff, pure_eq_ok_iff] at returned
    obtain ⟨q, readLeft, r, readRight, rfl⟩ := returned
    calc (q * r).channel c = min (q.channel c * r.channel c) (Level.limit bits) :=
          q.channel_mul levels r c
      _ = _ := by rw [left q readLeft, right r readRight, min_mul_min, interpret]

/-- The tree has a pixel at the index, and each channel of it is the exact value of the tree on what
the leaves hold there, limited once. -/
def IsLimitedOnce (bits : Nat)
    (read : {g : PixelFormat} → Leaf g → Nat → Except Fault (Pixel g)) (i : Nat)
    (e : Expr Leaf f) : Prop :=
  ∃ p, e.eval read i = .ok p ∧ ∀ c, p.channel c =
    min (e.exactValue c fun source => channelOf c (read source i)) (Level.limit bits)

theorem isLimitedOnce_of_eval (levels : f.HasLevels bits)
    (read : {g : PixelFormat} → Leaf g → Nat → Except Fault (Pixel g)) (i : Nat)
    {e : Expr Leaf f} (isPolynomial : e.IsPolynomial) (returns : ∃ p, e.eval read i = .ok p) :
    e.IsLimitedOnce bits read i := by
  obtain ⟨p, returned⟩ := returns
  exact ⟨p, returned, channel_of_eval levels read i isPolynomial p returned⟩

/-- Trees of sums and products with the same polynomial in each channel. -/
structure SamePolynomial (e e' : Expr Leaf f) : Prop where
  isPolynomial : e.IsPolynomial
  isPolynomial' : e'.IsPolynomial
  polynomial_eq : ∀ c, e.polynomial c = e'.polynomial c

/-- Trees with the same polynomials have the same pixel wherever both have one. -/
theorem SamePolynomial.eval_eq {e e' : Expr Leaf f} (same : SamePolynomial e e')
    (levels : f.HasLevels bits)
    (read : {g : PixelFormat} → Leaf g → Nat → Except Fault (Pixel g)) (i : Nat) (p q : Pixel f)
    (returned : e.eval read i = .ok p) (returned' : e'.eval read i = .ok q) : p = q := by
  apply Pixel.ext_channel
  intro c
  rw [channel_of_eval levels read i same.isPolynomial p returned c,
    channel_of_eval levels read i same.isPolynomial' q returned' c,
    ← eval_polynomial same.isPolynomial, ← eval_polynomial same.isPolynomial',
    same.polynomial_eq c]

/-! ### Rearranged trees -/

/-- The trees come from each other by the laws of sums and products, applied anywhere within. -/
inductive Rearranged : Expr Leaf f → Expr Leaf f → Prop where
  | refl (e : Expr Leaf f) : Rearranged e e
  | symm {e e' : Expr Leaf f} (forth : Rearranged e e') : Rearranged e' e
  | trans {e e' e'' : Expr Leaf f} (first : Rearranged e e') (second : Rearranged e' e'') :
    Rearranged e e''
  | plus {left left' right right' : Expr Leaf f} (onLeft : Rearranged left left')
    (onRight : Rearranged right right') :
    Rearranged (binary .plus left right) (binary .plus left' right')
  | times {left left' right right' : Expr Leaf f} (onLeft : Rearranged left left')
    (onRight : Rearranged right right') :
    Rearranged (binary .times left right) (binary .times left' right')
  | plus_comm (a b : Expr Leaf f) : Rearranged (binary .plus a b) (binary .plus b a)
  | times_comm (a b : Expr Leaf f) : Rearranged (binary .times a b) (binary .times b a)
  | plus_assoc (a b c : Expr Leaf f) :
    Rearranged (binary .plus (binary .plus a b) c) (binary .plus a (binary .plus b c))
  | times_assoc (a b c : Expr Leaf f) :
    Rearranged (binary .times (binary .times a b) c) (binary .times a (binary .times b c))
  | distribute (a b c : Expr Leaf f) :
    Rearranged (binary .times a (binary .plus b c))
      (binary .plus (binary .times a b) (binary .times a c))

namespace Rearranged

variable {e e' : Expr Leaf f}

theorem isPolynomial_iff (rearranged : Rearranged e e') : e.IsPolynomial ↔ e'.IsPolynomial := by
  induction rearranged with
  | refl e => rfl
  | symm _ ih => exact ih.symm
  | trans _ _ first second => exact first.trans second
  | plus _ _ left right => rw [isPolynomial_plus_iff, isPolynomial_plus_iff, left, right]
  | times _ _ left right => rw [isPolynomial_times_iff, isPolynomial_times_iff, left, right]
  | plus_comm a b | times_comm a b =>
    simp only [isPolynomial_plus_iff, isPolynomial_times_iff, and_comm]
  | plus_assoc a b c | times_assoc a b c =>
    simp only [isPolynomial_plus_iff, isPolynomial_times_iff, and_assoc]
  | distribute a b c =>
    simp only [isPolynomial_plus_iff, isPolynomial_times_iff]
    tauto

theorem mem_leaves_iff (rearranged : Rearranged e e') (l : (g : PixelFormat) × Leaf g) :
    l ∈ e.leaves ↔ l ∈ e'.leaves := by
  induction rearranged with
  | refl e => rfl
  | symm _ ih => exact ih.symm
  | trans _ _ first second => exact first.trans second
  | plus _ _ left right | times _ _ left right => simp only [leaves, List.mem_append, left, right]
  | plus_comm a b | times_comm a b => simp only [leaves, List.mem_append, or_comm]
  | plus_assoc a b c | times_assoc a b c => simp only [leaves, List.mem_append, or_assoc]
  | distribute a b c =>
    simp only [leaves, List.mem_append]
    tauto

theorem interpret_eq {R : Type*} [CommSemiring R] (rearranged : Rearranged e e')
    (constant : Pixel f → R) (unknown : Leaf f → R) :
    e.interpret constant unknown = e'.interpret constant unknown := by
  induction rearranged with
  | refl e => rfl
  | symm _ ih => exact ih.symm
  | trans _ _ first second => exact first.trans second
  | plus _ _ left right | times _ _ left right => simp only [interpret, left, right]
  | plus_comm a b => exact add_comm _ _
  | times_comm a b => exact mul_comm _ _
  | plus_assoc a b c => exact add_assoc _ _ _
  | times_assoc a b c => exact mul_assoc _ _ _
  | distribute a b c => exact mul_add _ _ _

/-- Trees that are rearranged are the same polynomial. -/
theorem samePolynomial (rearranged : Rearranged e e') (isPolynomial : e.IsPolynomial) :
    SamePolynomial e e' where
  isPolynomial := isPolynomial
  isPolynomial' := rearranged.isPolynomial_iff.mp isPolynomial
  polynomial_eq _ := rearranged.interpret_eq _ _

/-- Trees over the same views have the same size, or are refused one alike. -/
theorem viewSize?_eq_ok_iff {e e' : Expr ViewLeaf f} (rearranged : Rearranged e e')
    (size? : Option Size) : e.viewSize? = .ok size? ↔ e'.viewSize? = .ok size? := by
  have sameLeaves := rearranged.mem_leaves_iff
  unfold viewSize?
  cases size? with
  | none => simp only [size?_eq_none_iff, List.eq_nil_iff_forall_not_mem, sameLeaves]
  | some size =>
    simp only [size?_eq_some_iff, ne_eq, List.eq_nil_iff_forall_not_mem, sameLeaves]

end Rearranged

end Expr

/-! ### Images -/

namespace Image

variable {f : PixelFormat} {bits : Nat}

theorem failure_assign_eq_none_iff (img : Image (Pixel f)) (wf : img.WellFormed)
    (e : Expr ViewLeaf f) (sources : ∀ l ∈ e.leaves, l.2.WellFormed) :
    (img.assign e).failure = none ↔ ∃ size?, e.viewSize? = .ok size? := by
  cases computed : e.viewSize? with
  | error refusal => simp [img.assign_of_refused e refusal computed, Outcome.failed]
  | ok size? => simp [(img.assign_writes wf e size? computed sources).1]

theorem failure_update_eq_none_iff (img : Image (Pixel f)) (wf : img.WellFormed)
    (e : Expr (WithSelf f ViewLeaf) f)
    (sources : ∀ h (v : View (Pixel h)), ⟨h, .other v⟩ ∈ e.leaves → v.WellFormed) :
    (img.update e).failure = none ↔ ∀ l ∈ e.leaves, l.2.sizeOf img.size = img.size := by
  constructor
  · intro accepted
    by_contra differs
    obtain ⟨refusal, refused⟩ := (img.update_refused_iff e).mpr (by simpa using differs)
    simp [refused, Outcome.failed] at accepted
  · intro agree
    exact (img.update_writes wf e agree sources).1

/-- Both evaluations were refused or neither was, and they have left the same image. -/
def SameOutcome (outcome outcome' : Outcome (Image (Pixel f))) : Prop :=
  (outcome.failure = none ↔ outcome'.failure = none) ∧ outcome.state.SameVisible outcome'.state

/-- What is left of an image is decided by the values, once it is known which of two evaluations are
refused and what size the others give. -/
theorem AllOrNothing.sameOutcome {img : Image (Pixel f)} {value value' : Nat → Except Fault (Pixel f)}
    {outcome outcome' : Outcome (Image (Pixel f))} (whole : img.AllOrNothing value outcome)
    (whole' : img.AllOrNothing value' outcome') (wf : outcome.state.WellFormed)
    (wf' : outcome'.state.WellFormed)
    (alike : outcome.failure = none ↔ outcome'.failure = none)
    (oneSize : outcome.failure = none → outcome.state.size = outcome'.state.size)
    (agree : ∀ i p q, value i = .ok p → value' i = .ok q → p = q) :
    SameOutcome outcome outcome' := by
  refine ⟨alike, ?_⟩
  rcases whole with ⟨refusal, rfl⟩ | ⟨accepted, written⟩ <;>
    rcases whole' with ⟨refusal', rfl⟩ | ⟨accepted', written'⟩
  · exact .refl img
  · cases alike.mpr accepted'
  · cases alike.mp accepted
  · -- Both have written every pixel, with what the trees read at its index.
    have sizes := oneSize accepted
    refine wf.sameVisible wf' sizes fun i inside => ?_
    obtain ⟨p, read, here⟩ := written i (sizes ▸ inside)
    obtain ⟨q, read', there⟩ := written' i inside
    rw [here, there, agree i p q read read']

/-- Trees with the same polynomials have one size, if both have any and a leaf occurs in the
polynomials: both take their size from that leaf. -/
theorem size?_getD_eq_of_mem_vars {e e' : Expr ViewLeaf f} (same : Expr.SamePolynomial e e')
    (c : Fin f.channelCount) (occurs : (e.polynomial c).vars.Nonempty) (size? size?' : Option Size)
    (computed : e.viewSize? = .ok size?) (computed' : e'.viewSize? = .ok size?') (default : Size) :
    size?.getD default = size?'.getD default := by
  obtain ⟨source, inVars⟩ := occurs
  have member := Expr.mem_leaves_of_mem_vars same.isPolynomial c source inVars
  have member' := Expr.mem_leaves_of_mem_vars same.isPolynomial' c source
    (same.polynomial_eq c ▸ inVars)
  rw [← Expr.sizeOf_eq_of_size?_eq_ok _ e size? computed default _ member,
    ← Expr.sizeOf_eq_of_size?_eq_ok _ e' size?' computed' default _ member']

section

variable (levels : f.HasLevels bits) (img : Image (Pixel f)) (wf : img.WellFormed)

include levels wf

section

variable {e e' : Expr ViewLeaf f} (sources : ∀ l ∈ e.leaves, l.2.WellFormed)

include sources

/-- Assignments of trees with the same polynomials give the same image if they are refused alike and
otherwise give the same size. -/
theorem assign_sameOutcome (same : Expr.SamePolynomial e e')
    (sources' : ∀ l ∈ e'.leaves, l.2.WellFormed)
    (alike : (img.assign e).failure = none ↔ (img.assign e').failure = none)
    (oneSize : (img.assign e).failure = none →
      (img.assign e).state.size = (img.assign e').state.size) :
    SameOutcome (img.assign e) (img.assign e') :=
  (img.assign_allOrNothing wf e sources).sameOutcome (img.assign_allOrNothing wf e' sources')
    (wellFormed_assign wf e) (wellFormed_assign wf e') alike oneSize
    fun i => same.eval_eq levels _ i

/-- Trees with the same polynomials that are both accepted evaluate to the same image, unless they
are given different sizes and no leaf occurs in the polynomials. -/
theorem assign_sameVisible_of_accepted (same : Expr.SamePolynomial e e')
    (sources' : ∀ l ∈ e'.leaves, l.2.WellFormed)
    (accepted : (img.assign e).failure = none) (accepted' : (img.assign e').failure = none)
    (oneSize : (img.assign e).state.size = (img.assign e').state.size ∨
      ∃ c, (e.polynomial c).vars.Nonempty) :
    (img.assign e).state.SameVisible (img.assign e').state := by
  have sizes : (img.assign e).state.size = (img.assign e').state.size := by
    rcases oneSize with sizes | ⟨c, occurs⟩
    · exact sizes
    · obtain ⟨size?, computed⟩ := (img.failure_assign_eq_none_iff wf e sources).mp accepted
      obtain ⟨size?', computed'⟩ := (img.failure_assign_eq_none_iff wf e' sources').mp accepted'
      rw [(img.assign_writes wf e size? computed sources).2.1,
        (img.assign_writes wf e' size?' computed' sources').2.1]
      exact size?_getD_eq_of_mem_vars same c occurs size? size?' computed computed' img.size
  exact (img.assign_sameOutcome levels wf sources same sources' (iff_of_true accepted accepted')
    fun _ => sizes).2

theorem assign_rearranged (isPolynomial : e.IsPolynomial) (rearranged : Expr.Rearranged e e') :
    SameOutcome (img.assign e) (img.assign e') := by
  have sources' (l) (member : l ∈ e'.leaves) : l.2.WellFormed :=
    sources l ((rearranged.mem_leaves_iff l).mpr member)
  apply img.assign_sameOutcome levels wf sources (rearranged.samePolynomial isPolynomial) sources'
  · -- A refusal may name the sizes in another order.
    simp only [img.failure_assign_eq_none_iff wf e sources,
      img.failure_assign_eq_none_iff wf e' sources', rearranged.viewSize?_eq_ok_iff]
  · intro accepted
    obtain ⟨size?, computed⟩ := (img.failure_assign_eq_none_iff wf e sources).mp accepted
    have computed' := (rearranged.viewSize?_eq_ok_iff size?).mp computed
    rw [(img.assign_writes wf e size? computed sources).2.1,
      (img.assign_writes wf e' size? computed' sources').2.1]

end

section

variable {e e' : Expr (WithSelf f ViewLeaf) f}
  (sources : ∀ h (v : View (Pixel h)), ⟨h, .other v⟩ ∈ e.leaves → v.WellFormed)

include sources

/-- Updates by trees with the same polynomials give the same image if they are refused alike, since
an update keeps the size. -/
theorem update_sameOutcome (same : Expr.SamePolynomial e e')
    (sources' : ∀ h (v : View (Pixel h)), ⟨h, .other v⟩ ∈ e'.leaves → v.WellFormed)
    (alike : (img.update e).failure = none ↔ (img.update e').failure = none) :
    SameOutcome (img.update e) (img.update e') := by
  refine (img.update_allOrNothing wf e sources).sameOutcome
    (img.update_allOrNothing wf e' sources') (wellFormed_update wf e) (wellFormed_update wf e')
    alike (fun accepted => ?_) fun i => same.eval_eq levels _ i
  have agree := (img.failure_update_eq_none_iff wf e sources).mp accepted
  have agree' := (img.failure_update_eq_none_iff wf e' sources').mp (alike.mp accepted)
  rw [(img.update_writes wf e agree sources).2.1, (img.update_writes wf e' agree' sources').2.1]

theorem update_rearranged (isPolynomial : e.IsPolynomial) (rearranged : Expr.Rearranged e e') :
    SameOutcome (img.update e) (img.update e') := by
  have sources' (h) (v : View (Pixel h)) (member : ⟨h, .other v⟩ ∈ e'.leaves) : v.WellFormed :=
    sources h v ((rearranged.mem_leaves_iff _).mpr member)
  apply img.update_sameOutcome levels wf sources (rearranged.samePolynomial isPolynomial) sources'
  simp only [img.failure_update_eq_none_iff wf e sources,
    img.failure_update_eq_none_iff wf e' sources', rearranged.mem_leaves_iff]

end

end

/-- A tree of sums and products over levels has at every index of its leaves the exact value limited
once, also where it reads the image that it is evaluated into. So trees with the same polynomials
have the same pixels. If neither is refused, updates by the two leave the same image, and assignments
do if they give the same size, as they do if a leaf occurs in the polynomials. The sizes may differ
where a leaf is multiplied by zero: it is in no polynomial then, but the tree takes its size from it,
and may be refused for it. Trees that are rearranged are refused alike, and leave the same image
whatever their size. -/
theorem saturating_trees_exact (levels : f.HasLevels bits) (img : Image (Pixel f))
    (reachable : img.Reachable) :
    (∀ e : Expr ViewLeaf f, e.IsPolynomial → (∀ l ∈ e.leaves, View.Reachable l.2) →
      ∀ i, (∀ l ∈ e.leaves, i < l.2.pixelCount) →
        e.IsLimitedOnce bits (fun v i => v.read i) i) ∧
    (∀ e : Expr (WithSelf f ViewLeaf) f, e.IsPolynomial →
      (∀ h (v : View (Pixel h)), ⟨h, .other v⟩ ∈ e.leaves → v.Reachable) →
      ∀ i, (∀ l ∈ e.leaves, i < (l.2.sizeOf img.size).area) →
        e.IsLimitedOnce bits (fun source i => source.read img.data i) i) ∧
    (∀ e e' : Expr ViewLeaf f, Expr.SamePolynomial e e' →
      (∀ l ∈ e.leaves, View.Reachable l.2) → (∀ l ∈ e'.leaves, View.Reachable l.2) →
        (∀ i p q, e.read i = .ok p → e'.read i = .ok q → p = q) ∧
        ((img.assign e).failure = none → (img.assign e').failure = none →
          (img.assign e).state.size = (img.assign e').state.size ∨
            (∃ c, (e.polynomial c).vars.Nonempty) →
          (img.assign e).state.SameVisible (img.assign e').state)) ∧
    (∀ e e' : Expr (WithSelf f ViewLeaf) f, Expr.SamePolynomial e e' →
      (∀ h (v : View (Pixel h)), ⟨h, .other v⟩ ∈ e.leaves → v.Reachable) →
      (∀ h (v : View (Pixel h)), ⟨h, .other v⟩ ∈ e'.leaves → v.Reachable) →
        (∀ i p q, e.readOver img i = .ok p → e'.readOver img i = .ok q → p = q) ∧
        ((img.update e).failure = none → (img.update e').failure = none →
          (img.update e).state.SameVisible (img.update e').state)) ∧
    (∀ e e' : Expr ViewLeaf f, e.IsPolynomial → (∀ l ∈ e.leaves, View.Reachable l.2) →
      Expr.Rearranged e e' →
        Expr.SamePolynomial e e' ∧ SameOutcome (img.assign e) (img.assign e')) ∧
    ∀ e e' : Expr (WithSelf f ViewLeaf) f, e.IsPolynomial →
      (∀ h (v : View (Pixel h)), ⟨h, .other v⟩ ∈ e.leaves → v.Reachable) →
      Expr.Rearranged e e' →
        Expr.SamePolynomial e e' ∧ SameOutcome (img.update e) (img.update e') := by
  have wf := reachable.wellFormed
  have views {e : Expr ViewLeaf f} (sources : ∀ l ∈ e.leaves, View.Reachable l.2) :
      ∀ l ∈ e.leaves, l.2.WellFormed := fun l member => (sources l member).wellFormed
  have others {e : Expr (WithSelf f ViewLeaf) f}
      (sources : ∀ h (v : View (Pixel h)), ⟨h, .other v⟩ ∈ e.leaves → v.Reachable) :
      ∀ h (v : View (Pixel h)), ⟨h, .other v⟩ ∈ e.leaves → v.WellFormed :=
    fun h v member => (sources h v member).wellFormed
  refine ⟨fun e isPolynomial sources i inside => ?_, fun e isPolynomial sources i inside => ?_,
    fun e e' same sources sources' => ⟨fun i => same.eval_eq levels _ i, ?_⟩,
    fun e e' same sources sources' => ⟨fun i => same.eval_eq levels _ i, ?_⟩,
    fun e e' isPolynomial sources rearranged => ⟨rearranged.samePolynomial isPolynomial, ?_⟩,
    fun e e' isPolynomial sources rearranged => ⟨rearranged.samePolynomial isPolynomial, ?_⟩⟩
  · exact Expr.isLimitedOnce_of_eval levels _ i isPolynomial
      ((e.exists_read_iff (views sources) i).mpr inside)
  · exact Expr.isLimitedOnce_of_eval levels _ i isPolynomial
      ((e.exists_readOver_iff img wf (others sources) i).mpr inside)
  · exact img.assign_sameVisible_of_accepted levels wf (views sources) same (views sources')
  · intro accepted accepted'
    exact (img.update_sameOutcome levels wf (others sources) same (others sources')
      (iff_of_true accepted accepted')).2
  · exact img.assign_rearranged levels wf (views sources) isPolynomial rearranged
  · exact img.update_rearranged levels wf (others sources) isPolynomial rearranged

theorem gray8_channel_eq (c : Fin PixelFormat.gray8.channelCount) : c = ⟨0, by decide⟩ :=
  Fin.ext (Nat.lt_one_iff.mp c.isLt)

/-- No image, but a zero. -/
def constantZero : Expr ViewLeaf .gray8 :=
  .const (Level.ofNat 0 : Level 8)

/-- An image times zero. -/
def timesZero (source : View (Pixel .gray8)) : Expr ViewLeaf .gray8 :=
  .binary .times (.leaf source) constantZero

theorem constantZero_polynomial (c : Fin PixelFormat.gray8.channelCount) :
    constantZero.polynomial c = 0 := by
  rw [gray8_channel_eq c]
  exact MvPolynomial.C_0

theorem timesZero_polynomial (source : View (Pixel .gray8))
    (c : Fin PixelFormat.gray8.channelCount) : (timesZero source).polynomial c = 0 :=
  calc MvPolynomial.X source * constantZero.polynomial c
    _ = 0 := by rw [constantZero_polynomial, mul_zero]

/-- An image times zero is the polynomial zero, but zero alone makes an empty image. An image and a
part of it times zero is the polynomial of the image alone, but is refused, since the sizes differ. -/
theorem samePolynomial_not_same_image :
    ramp.Reachable ∧
    (Expr.SamePolynomial (timesZero ramp.asView) constantZero ∧
      (ofExpr (timesZero ramp.asView)).failure = none ∧ (ofExpr constantZero).failure = none ∧
      (ofExpr (timesZero ramp.asView)).state.size = ⟨6, 4⟩ ∧
      (ofExpr constantZero).state.size = ⟨0, 0⟩ ∧
      ¬ (ofExpr (timesZero ramp.asView)).state.SameVisible (ofExpr constantZero).state) ∧
    ∃ part, ramp.asView.subViews [⟨⟨1, 1⟩, ⟨2, 2⟩⟩] = .ok part ∧
      let sum : Expr ViewLeaf .gray8 := .binary .plus (.leaf ramp.asView) (timesZero part)
      Expr.SamePolynomial sum (.leaf ramp.asView) ∧
        (∃ refusal, ofExpr sum = .failed blank (.error refusal)) ∧
        (ofExpr (.leaf ramp.asView)).failure = none := by
  have view : View.WellFormed ramp.asView := ramp_reachable.wellFormed.asView
  obtain ⟨accepted, size, -⟩ := blank.assign_writes wellFormed_blank (timesZero ramp.asView)
    (some ramp.size) rfl (by simpa [timesZero, constantZero, Expr.leaves] using view)
  obtain ⟨accepted', size', -⟩ := blank.assign_writes wellFormed_blank constantZero none rfl
    (by simp [constantZero, Expr.leaves])
  obtain ⟨alone, -, -⟩ := blank.assign_writes wellFormed_blank (.leaf ramp.asView)
    (some ramp.size) rfl (by simpa [Expr.leaves] using view)
  have isPolynomial (source) : (timesZero source).IsPolynomial := .times (.leaf _) (.const _)
  refine ⟨ramp_reachable, ⟨⟨isPolynomial _, .const _, fun c => ?_⟩, accepted, accepted', size,
    size', fun same => ?_⟩, ?_⟩
  · rw [timesZero_polynomial, constantZero_polynomial]
  · have sizes : (⟨6, 4⟩ : Size) = ⟨0, 0⟩ := size.symm.trans (same.size_eq.trans size')
    exact absurd sizes (by decide)
  · obtain ⟨part, chain⟩ : ∃ part, ramp.asView.subViews [⟨⟨1, 1⟩, ⟨2, 2⟩⟩] = .ok part := ⟨_, rfl⟩
    have partSize : part.size = ⟨2, 2⟩ := (View.isWindowOf_of_subViews _ _ part view chain).1
    refine ⟨part, chain, ⟨.plus (.leaf _) (isPolynomial part), .leaf _, fun c => ?_⟩, ?_, alone⟩
    · calc MvPolynomial.X ramp.asView + (timesZero part).polynomial c
        _ = MvPolynomial.X ramp.asView := by rw [timesZero_polynomial, add_zero]
    · refine (blank.assign_refused_iff _).mpr ⟨⟨_, ramp.asView⟩, ?_, ⟨_, part⟩, ?_, ?_⟩
      · simp [Expr.leaves]
      · simp [timesZero, Expr.leaves]
      · rw [partSize]
        decide

/-- A brightened image, times three. -/
def brightened (source : View (Pixel .gray8)) : Expr ViewLeaf .gray8 :=
  .binary .times (.binary .plus (.leaf source) (.const (Level.ofNat 250 : Level 8)))
    (.const (Level.ofNat 3 : Level 8))

@[inherit_doc brightened]
def brightenedApart (source : View (Pixel .gray8)) : Expr ViewLeaf .gray8 :=
  let three : Expr ViewLeaf .gray8 := .const (Level.ofNat 3 : Level 8)
  .binary .plus (.binary .times three (.leaf source))
    (.binary .times three (.const (Level.ofNat 250 : Level 8)))

/-- An image and itself. -/
def doubledBySum {Leaf : PixelFormat → Type} (source : Leaf .gray8) : Expr Leaf .gray8 :=
  .binary .plus (.leaf source) (.leaf source)

/-- Twice an image. -/
def doubledByProduct {Leaf : PixelFormat → Type} (source : Leaf .gray8) : Expr Leaf .gray8 :=
  .binary .times (.const (Level.ofNat 2 : Level 8)) (.leaf source)

theorem doubled_samePolynomial {Leaf : PixelFormat → Type} (source : Leaf .gray8) :
    Expr.SamePolynomial (doubledBySum source) (doubledByProduct source) where
  isPolynomial := .plus (.leaf _) (.leaf _)
  isPolynomial' := .times (.const _) (.leaf _)
  polynomial_eq c := by
    rw [gray8_channel_eq c]
    exact (two_mul (MvPolynomial.X source)).symm

/-- The image holds 10 at index 10, so the sum is limited there before it is multiplied, and the
distributed tree limits both products. An image and itself is no rearrangement of twice the image,
but the same polynomial, also in an update of the image. -/
theorem saturating_trees_exact_brightened :
    ramp.Reachable ∧
      (∃ p, (brightened ramp.asView).read 10 = .ok p ∧
        ∀ c, p.channel c = min ((10 + 250) * 3) 255) ∧
      (ramp.assign (brightened ramp.asView)).state.SameVisible
        (ramp.assign (brightenedApart ramp.asView)).state ∧
      (ramp.assign (doubledBySum ramp.asView)).state.SameVisible
        (ramp.assign (doubledByProduct ramp.asView)).state ∧
      (ramp.update (doubledBySum .self)).state.SameVisible
        (ramp.update (doubledByProduct .self)).state := by
  obtain ⟨exact, -, assigned, updated, rearranged, -⟩ :=
    saturating_trees_exact .gray8 ramp ramp_reachable
  have view : View.Reachable ramp.asView := ⟨ramp, ramp_reachable, [], rfl⟩
  have isPolynomial : (brightened ramp.asView).IsPolynomial :=
    .times (.plus (.leaf _) (.const _)) (.const _)
  have sources : ∀ l ∈ (brightened ramp.asView).leaves, View.Reachable l.2 := by
    simpa [brightened, Expr.leaves] using view
  refine ⟨ramp_reachable, ?_, ?_, ?_, ?_⟩
  · obtain ⟨p, read, channels⟩ := exact _ isPolynomial sources 10
      (by simp [brightened, Expr.leaves]; decide)
    have held : ramp.asView.read 10 = .ok (Level.ofNat 10 : Level 8) := by
      refine (if_pos rfl).trans ((ramp.data.read_eq_ok_iff 10 _).mpr ?_)
      rw [Slice.get?_eq_toList]
      exact getElem?_ramp 10 (by decide)
    refine ⟨p, read, fun c => (channels c).trans ?_⟩
    rw [gray8_channel_eq c]
    simp only [Expr.exactValue, brightened, Expr.interpret, held, Expr.channelOf]
    rfl
  · have distributed : Expr.Rearranged (brightened ramp.asView) (brightenedApart ramp.asView) :=
      .trans (.times_comm _ _) (.distribute _ _ _)
    exact (rearranged _ _ isPolynomial sources distributed).2.2
  · have bySum : ∀ l ∈ (doubledBySum ramp.asView : Expr ViewLeaf .gray8).leaves,
        View.Reachable l.2 := by
      simpa [doubledBySum, Expr.leaves] using view
    have byProduct : ∀ l ∈ (doubledByProduct ramp.asView : Expr ViewLeaf .gray8).leaves,
        View.Reachable l.2 := by
      simpa [doubledByProduct, Expr.leaves] using view
    obtain ⟨accepted, size, -⟩ := ramp.assign_writes ramp_reachable.wellFormed
      (doubledBySum ramp.asView) (some ramp.size) rfl fun l member => (bySum l member).wellFormed
    obtain ⟨accepted', size', -⟩ := ramp.assign_writes ramp_reachable.wellFormed
      (doubledByProduct ramp.asView) (some ramp.size) rfl
      fun l member => (byProduct l member).wellFormed
    exact (assigned _ _ (doubled_samePolynomial _) bySum byProduct).2 accepted accepted'
      (.inl (size.trans size'.symm))
  · -- Neither tree reads any other image than the one that is updated.
    refine (updated _ _ (doubled_samePolynomial _) ?_ ?_).2 rfl rfl
    · rintro h v (_ | ⟨_, _ | ⟨_, ⟨⟩⟩⟩)
    · rintro h v (_ | ⟨_, ⟨⟩⟩)

end Image

end Raster
