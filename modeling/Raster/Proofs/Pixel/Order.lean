import Raster.Statistics

/-!
# The order of pixels

Each component of a pixel has a rank, and pixels are ordered by the first component in which their
ranks differ. This order leaves no two pixels incomparable, as long as all components are numbers. A
component that is not a number takes a pixel out of the order: it is not even equal to itself.
-/

namespace Raster

/-! ### Components -/

namespace Binary

variable {f : BinaryFormat}

theorem compare?_of_numbers (x y : Binary f) (numberX : x.isNaN = false)
    (numberY : y.isNaN = false) : x.compare? y = some (compare x.rank y.rank) := by
  simp [compare?, numberX, numberY]

theorem compare?_self_of_isNaN (x : Binary f) (noNumber : x.isNaN = true) :
    x.compare? x = none := by
  simp [compare?, noNumber]

end Binary

namespace Complex

/-- The imaginary parts count only if the real parts are equal. -/
theorem compare?_of_numbers (z w : Complex) (reZ : z.re.isNaN = false) (imZ : z.im.isNaN = false)
    (reW : w.re.isNaN = false) (imW : w.im.isNaN = false) :
    z.compare? w =
      some ((compare z.re.rank w.re.rank).then (compare z.im.rank w.im.rank)) := by
  rw [compare?, Binary.compare?_of_numbers _ _ reZ reW]
  cases compare z.re.rank w.re.rank with
  | eq => exact Binary.compare?_of_numbers _ _ imZ imW
  | lt => rfl
  | gt => rfl

theorem compare?_self_of_isNaN (z : Complex) (noNumber : (z.re.isNaN || z.im.isNaN) = true) :
    z.compare? z = none := by
  rw [compare?]
  cases real : z.re.isNaN with
  | true => rw [z.re.compare?_self_of_isNaN real]
  | false =>
    rw [real, Bool.false_or] at noNumber
    have equal : compare z.re.rank z.re.rank = .eq := Std.ReflCmp.compare_self
    rw [Binary.compare?_of_numbers _ _ real real, equal]
    exact z.im.compare?_self_of_isNaN noNumber

end Complex

theorem Level.compare_eq {bits : Nat} (x y : Level bits) :
    x.compare y = Ord.compare (x.toNat : Int) (y.toNat : Int) := by
  rw [compare, Nat.compare_eq_ite_lt, Int.compare_eq_ite_lt]
  simp only [Int.ofNat_lt]

/-! ### Pixels -/

namespace Pixel

variable {f : PixelFormat}

instance : DecidableEq (Pixel f) :=
  fun p q => decidable_of_iff (p.words = q.words) ⟨words_injective, congrArg words⟩

/-- The ranks of the components, in the order in which they count. -/
def ranks : {f : PixelFormat} → Pixel f → List Int
  | .gray8, (p : Level 8) => [p.toNat]
  | .gray16, (p : Level 16) => [p.toNat]
  | .grayFloat, (p : Single) => [p.rank]
  | .complexFloat, (p : Complex) => [p.re.rank, p.im.rank]
  | .rgba8, (p : Rgba 8) => p.channels.map fun x => (x.toNat : Int)
  | .rgba16, (p : Rgba 16) => p.channels.map fun x => (x.toNat : Int)

/-- The order by the first component in which two pixels differ in rank. -/
def byRank : Pixel f → Pixel f → Ordering :=
  compareOn ranks

instance : Std.TransCmp (byRank (f := f)) :=
  inferInstanceAs (Std.TransCmp (compareOn ranks))

/-- Whether some component is not a number. -/
def hasNaN : {f : PixelFormat} → Pixel f → Bool
  | .grayFloat, (p : Single) => p.isNaN
  | .complexFloat, (p : Complex) => p.re.isNaN || p.im.isNaN
  | .gray8, _ | .gray16, _ | .rgba8, _ | .rgba16, _ => false

/-- Pixels of numbers are in the order by rank, which is total. -/
theorem compare?_of_numbers (p q : Pixel f) (numbersP : p.hasNaN = false)
    (numbersQ : q.hasNaN = false) : p.compare? q = some (p.byRank q) := by
  have single (m n : Int) : compare [m] [n] = compare m n := by
    simp [List.compare_cons_cons]
  have pair (k l m n : Int) : compare [k, l] [m, n] = (compare k m).then (compare l n) := by
    simp [List.compare_cons_cons]
  cases f with
  | gray8 | gray16 => exact congrArg some ((Level.compare_eq p q).trans (single _ _).symm)
  | grayFloat =>
    have order : p.byRank q = _ := single _ _
    rw [order]
    exact Binary.compare?_of_numbers p q numbersP numbersQ
  | complexFloat =>
    obtain ⟨reP, imP⟩ := Bool.or_eq_false_iff.mp numbersP
    obtain ⟨reQ, imQ⟩ := Bool.or_eq_false_iff.mp numbersQ
    have order : p.byRank q = _ := pair _ _ _ _
    rw [order]
    exact Complex.compare?_of_numbers p q reP imP reQ imQ
  | rgba8 | rgba16 =>
    simp only [compare?, byRank, compareOn, ranks, Rgba.compare, Rgba.channels, Level.compare_eq,
      List.map_cons, List.map_nil, List.compare_cons_cons, single]

/-- A pixel is in order with itself exactly if all of its components are numbers. -/
theorem isOrdered_eq_false_iff (p : Pixel f) : View.isOrdered p = false ↔ p.hasNaN = true := by
  cases numbers : p.hasNaN with
  | false => simp [View.isOrdered, compare?_of_numbers p p numbers numbers]
  | true =>
    have unordered : p.compare? p = none := by
      cases f with
      | gray8 | gray16 | rgba8 | rgba16 => cases numbers
      | grayFloat => exact Binary.compare?_self_of_isNaN p numbers
      | complexFloat => exact Complex.compare?_self_of_isNaN p numbers
    simp [View.isOrdered, unordered]

theorem compare?_of_isOrdered (p q : Pixel f) (orderedP : View.isOrdered p = true)
    (orderedQ : View.isOrdered q = true) : p.compare? q = some (p.byRank q) := by
  have numbers (r : Pixel f) (ordered : View.isOrdered r = true) : r.hasNaN = false := by
    rw [← Bool.not_eq_true, ← isOrdered_eq_false_iff, ordered]
    exact Bool.noConfusion
  exact compare?_of_numbers p q (numbers p orderedP) (numbers q orderedQ)

theorem lessThan_iff (p q : Pixel f) (orderedP : View.isOrdered p = true)
    (orderedQ : View.isOrdered q = true) : p.lessThan q = true ↔ p.byRank q = .lt := by
  rw [lessThan, compare?_of_isOrdered p q orderedP orderedQ]
  simp

end Pixel

end Raster
