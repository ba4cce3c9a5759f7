import Mathlib.Data.Int.ConditionallyCompleteOrder
import Mathlib.Order.ConditionallyCompleteLattice.Basic
import Raster.Pixel.Format
import Raster.Proofs.Binary.Integer

/-!
# Chains of integer conversions

Every conversion between two integer types goes by way of a double, which holds all integers of
32 bits exactly. So one step only clamps to the range of its target, and because all ranges have
zero in common, the clamps of a chain are one clamp to the integers that all its targets can hold.
-/

namespace Raster

/-- The types of single integers: plain ones, and the levels of the two gray formats. -/
inductive IntegerKind where
  | natural8
  | natural16
  | natural32
  | integer32
  | gray8
  | gray16
  deriving DecidableEq

namespace IntegerKind

/-- The kind of number that a type holds. The levels of a gray format are its pixels, by
`PixelFormat.kind`. -/
def number : IntegerKind → NumberKind
  | natural8 => .natural 8
  | natural16 => .natural 16
  | natural32 => .natural 32
  | integer32 => .integer32
  | gray8 => .natural 8
  | gray16 => .natural 16

def Value (k : IntegerKind) : Type :=
  k.number.Value

def toInt : (k : IntegerKind) → k.Value → Int
  | natural8, (x : Level 8) => x.toNat
  | natural16, (x : Level 16) => x.toNat
  | natural32, (x : Level 32) => x.toNat
  | integer32, (x : Int32) => x.toInt
  | gray8, (x : Level 8) => x.toNat
  | gray16, (x : Level 16) => x.toNat

/-- The integers that a type can hold. -/
def range (k : IntegerKind) : Set Int :=
  Set.range k.toInt

def low : IntegerKind → Int
  | integer32 => Int32.minValue.toInt
  | _ => 0

def high : IntegerKind → Int
  | natural8 => Level.limit 8
  | natural16 => Level.limit 16
  | natural32 => Level.limit 32
  | integer32 => Int32.maxValue.toInt
  | gray8 => Level.limit 8
  | gray16 => Level.limit 16

theorem toInt_injective (k : IntegerKind) : Function.Injective k.toInt := by
  intro x y same
  cases k
  case integer32 => exact Int32.toInt_inj.mp same
  all_goals exact Level.ext (Int.ofNat_inj.mp same)

theorem low_le_zero (k : IntegerKind) : k.low ≤ 0 := by
  cases k <;> decide

theorem zero_le_high (k : IntegerKind) : 0 ≤ k.high := by
  cases k <;> decide

theorem toInt_mem (k : IntegerKind) (x : k.Value) : k.toInt x ∈ Set.Icc k.low k.high := by
  cases k
  case integer32 => exact ⟨Int32.minValue_le_toInt x, Int32.toInt_le x⟩
  all_goals exact ⟨Int.natCast_nonneg _, Int.ofNat_le.mpr (Level.toNat_le x)⟩

/-- No integer of these types has more bits than the significand of a double. -/
theorem natAbs_le_of_mem (k : IntegerKind) (i : Int) (member : i ∈ Set.Icc k.low k.high) :
    i.natAbs ≤ 2 * BinaryFormat.double.leadingBit := by
  have lowest : -(2 * BinaryFormat.double.leadingBit : Nat) ≤ k.low := by
    cases k <;> decide
  have highest : k.high ≤ (2 * BinaryFormat.double.leadingBit : Nat) := by
    cases k <;> decide
  obtain ⟨least, most⟩ := member
  omega

theorem toDouble_eq (k : IntegerKind) (x : k.Value) :
    k.number.toDouble x = Binary.ofInt (k.toInt x) := by
  cases k <;> rfl

/-- The value that a number gives is the nearest integer, as a saturated cast has it. -/
theorem toInt_ofDouble (k : IntegerKind) (d : Double) (i : Int)
    (nearest : d.nearestWithin k.low k.high = i) (least : k.low ≤ i) (most : i ≤ k.high) :
    k.toInt (k.number.ofDouble d) = i := by
  have level (bits : Nat) (least : 0 ≤ i) (most : i ≤ (Level.limit bits : Nat)) :
      ((Level.ofNat i.toNat : Level bits).toNat : Int) = i := by
    rw [Level.toNat_ofNat]
    omega
  cases k
  case integer32 =>
    exact (congrArg (fun j => (Int32.ofInt j).toInt) nearest).trans
      (Int32.toInt_ofInt_of_le least (Int.lt_of_le_of_lt most (by decide)))
  all_goals
    exact (congrArg (fun j => ((Level.ofNat j.toNat : Level _).toNat : Int)) nearest).trans
      (level _ least most)

theorem range_eq (k : IntegerKind) : k.range = Set.Icc k.low k.high := by
  apply Set.Subset.antisymm
  · rintro _ ⟨x, rfl⟩
    exact k.toInt_mem x
  · rintro i ⟨least, most⟩
    refine ⟨k.number.ofDouble (Binary.ofInt i), k.toInt_ofDouble _ i ?_ least most⟩
    rw [Binary.nearestWithin_ofInt _ i _ _ (k.natAbs_le_of_mem i ⟨least, most⟩)]
    omega

/-- The integers that every type of a chain can hold. -/
def commonRange (chain : List IntegerKind) : Set Int :=
  {i | ∀ k ∈ chain, i ∈ k.range}

end IntegerKind

/-- An integer of one of the types. -/
structure IntegerValue where
  kind : IntegerKind
  value : kind.Value

namespace IntegerValue

def toInt (x : IntegerValue) : Int :=
  x.kind.toInt x.value

/-- One step of a chain: the value that the conversion between the two kinds of numbers gives. -/
def convert (x : IntegerValue) (k : IntegerKind) : IntegerValue where
  kind := k
  value := (Conversion.number x.kind.number k.number).apply x.value

def convertAlong (x : IntegerValue) (chain : List IntegerKind) : IntegerValue :=
  chain.foldl convert x

theorem eq_of_toInt_eq {x y : IntegerValue} (kind : x.kind = y.kind) (same : x.toInt = y.toInt) :
    x = y := by
  obtain ⟨k, x⟩ := x
  obtain ⟨j, y⟩ := y
  change k = j at kind
  subst kind
  exact congrArg (IntegerValue.mk k) (k.toInt_injective same)

/-- A step only clamps. -/
theorem toInt_convert (x : IntegerValue) (k : IntegerKind) :
    (x.convert k).toInt = max k.low (min k.high x.toInt) := by
  have low := k.low_le_zero
  have high := k.zero_le_high
  refine k.toInt_ofDouble _ _ ?_ (by omega) (by omega)
  rw [x.kind.toDouble_eq]
  exact Binary.nearestWithin_ofInt _ _ _ _ (x.kind.natAbs_le_of_mem _ (x.kind.toInt_mem x.value))

theorem kind_convertAlong (x : IntegerValue) (chain : List IntegerKind) (last : IntegerKind) :
    (x.convertAlong (chain ++ [last])).kind = last := by
  rw [convertAlong, List.foldl_append]
  rfl

/-- The clamps of a chain are one clamp. -/
theorem exists_clamp (chain : List IntegerKind) (nonempty : chain ≠ []) :
    ∃ low high, low ≤ 0 ∧ 0 ≤ high ∧ IntegerKind.commonRange chain = Set.Icc low high ∧
      ∀ x : IntegerValue, (x.convertAlong chain).toInt = max low (min high x.toInt) := by
  -- Induction on the chain: the first step clamps before the one clamp that the rest is.
  induction chain with
  | nil => exact absurd rfl nonempty
  | cons k rest ih =>
    have kLow := k.low_le_zero
    have kHigh := k.zero_le_high
    rcases eq_or_ne rest [] with rfl | more
    · refine ⟨k.low, k.high, kLow, kHigh, ?_, fun x => x.toInt_convert k⟩
      ext i
      rw [← k.range_eq]
      exact List.forall_mem_singleton
    · obtain ⟨low, high, restLow, restHigh, common, clamped⟩ := ih more
      refine ⟨max k.low low, min k.high high, by omega, by omega, ?_, fun x => ?_⟩
      · ext i
        have rest_iff : i ∈ IntegerKind.commonRange rest ↔ low ≤ i ∧ i ≤ high := by
          rw [common, Set.mem_Icc]
        have k_iff : i ∈ k.range ↔ k.low ≤ i ∧ i ≤ k.high := by
          rw [k.range_eq, Set.mem_Icc]
        have cons_iff : i ∈ IntegerKind.commonRange (k :: rest) ↔
            i ∈ k.range ∧ i ∈ IntegerKind.commonRange rest := List.forall_mem_cons
        rw [cons_iff, rest_iff, k_iff, Set.mem_Icc]
        omega
      · -- Zero lies in both ranges, so they overlap and the two clamps are one.
        have step := x.toInt_convert k
        rw [show x.convertAlong (k :: rest) = (x.convert k).convertAlong rest from rfl, clamped,
          step]
        omega

end IntegerValue

/-- What a chain of conversions does to integers: it clamps them, and that is all. -/
structure ClampsOnly (chain : List IntegerKind) : Prop where
  /-- The result is the source, clamped to what all types of the chain can hold. -/
  clamps : ∃ low high, low ≤ high ∧ IntegerKind.commonRange chain = Set.Icc low high ∧
    ∀ x : IntegerValue, (x.convertAlong chain).toInt = max low (min high x.toInt)
  /-- A chain through the same types gives the same integer, whatever their order. -/
  anyOrder : ∀ other : List IntegerKind, (∀ k, k ∈ other ↔ k ∈ chain) →
    ∀ x : IntegerValue, (x.convertAlong other).toInt = (x.convertAlong chain).toInt
  /-- Widening to types that hold all values of the source, and then narrowing back to the type of
  the source, gives the source itself. -/
  narrowsBack : ∀ x : IntegerValue, (∀ k ∈ chain, x.kind.range ⊆ k.range) →
    x.convertAlong (chain ++ [x.kind]) = x
  /-- Greater integers do not become smaller than others. -/
  monotone : ∀ x y : IntegerValue, x.toInt ≤ y.toInt →
    (x.convertAlong chain).toInt ≤ (y.convertAlong chain).toInt

namespace IntegerValue

theorem convertAlong_anyOrder (chain other : List IntegerKind) (nonempty : chain ≠ [])
    (same : ∀ k, k ∈ other ↔ k ∈ chain) (x : IntegerValue) :
    (x.convertAlong other).toInt = (x.convertAlong chain).toInt := by
  have otherNonempty : other ≠ [] := by
    obtain ⟨k, member⟩ := List.exists_mem_of_ne_nil chain nonempty
    exact List.ne_nil_of_mem ((same k).mpr member)
  obtain ⟨low, high, least, most, common, clamped⟩ := exists_clamp chain nonempty
  obtain ⟨low', high', least', most', common', clamped'⟩ := exists_clamp other otherNonempty
  have ranges : IntegerKind.commonRange other = IntegerKind.commonRange chain := by
    ext i
    exact forall_congr' fun k => imp_congr_left (same k)
  rw [common, common', Set.Icc_eq_Icc_iff (by omega)] at ranges
  rw [clamped, clamped', ranges.1, ranges.2]

theorem convertAlong_narrowsBack (chain : List IntegerKind) (x : IntegerValue)
    (wide : ∀ k ∈ chain, x.kind.range ⊆ k.range) : x.convertAlong (chain ++ [x.kind]) = x := by
  apply eq_of_toInt_eq (x.kind_convertAlong chain x.kind)
  obtain ⟨low, high, least, most, common, clamped⟩ :=
    exists_clamp (chain ++ [x.kind]) (List.append_ne_nil_of_right_ne_nil _ (List.cons_ne_nil _ _))
  have member : x.toInt ∈ IntegerKind.commonRange (chain ++ [x.kind]) := by
    intro k mem
    rcases List.mem_append.mp mem with widening | back
    · exact wide k widening ⟨x.value, rfl⟩
    · rw [List.mem_singleton.mp back]
      exact ⟨x.value, rfl⟩
  rw [common, Set.mem_Icc] at member
  rw [clamped]
  omega

end IntegerValue

/-- Chains of conversions through the integer types only clamp, and the order of the types does
not matter. -/
theorem integer_chains_clamp (chain : List IntegerKind) (nonempty : chain ≠ []) :
    ClampsOnly chain := by
  obtain ⟨low, high, least, most, common, clamped⟩ := IntegerValue.exists_clamp chain nonempty
  refine ⟨⟨low, high, by omega, common, clamped⟩, fun other same x => ?_, fun x wide => ?_,
    fun x y le => ?_⟩
  · exact IntegerValue.convertAlong_anyOrder chain other nonempty same x
  · exact IntegerValue.convertAlong_narrowsBack chain x wide
  · rw [clamped, clamped]
    omega

/-- Neither of two ranges holds the other: of a negative integer zero is left, and of a large
natural the greatest 32-bit integer. -/
theorem integer_chains_clamp_mixedRanges :
    [IntegerKind.natural32, .integer32] ≠ [] ∧
      ClampsOnly [.natural32, .integer32] ∧
      (IntegerValue.convertAlong ⟨.integer32, (-5 : Int32)⟩ [.natural32, .integer32]).toInt = 0 ∧
      (IntegerValue.convertAlong ⟨.natural32, (Level.top : Level 32)⟩
        [.natural32, .integer32]).toInt = 2147483647 :=
  ⟨List.cons_ne_nil _ _, integer_chains_clamp _ (List.cons_ne_nil _ _), by decide +kernel,
    by decide +kernel⟩

end Raster
