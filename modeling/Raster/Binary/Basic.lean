/-!
# Binary floating-point numbers

A number of a binary interchange format is a sign and a magnitude word. The magnitude words are
ordered like the numbers they stand for: first the subnormal and normal numbers, then infinity,
then the values that are not a number. So the order of two numbers is the order of their signed
magnitudes, and rounding up past the largest finite number lands on infinity.
-/

namespace Raster

/-- The two interchange formats in use, of 32 bits and of 64 bits. -/
inductive BinaryFormat where
  | single
  | double
  deriving DecidableEq

namespace BinaryFormat

def exponentBits : BinaryFormat → Nat
  | single => 8
  | double => 11

def fractionBits : BinaryFormat → Nat
  | single => 23
  | double => 52

/-- How many fractions there are. A normal significand is a fraction plus this leading bit. -/
def leadingBit : BinaryFormat → Nat
  | single => 0x800000
  | double => 0x10000000000000

/-- How many magnitude words there are. The sign bit of a word has this weight. -/
def signBit : BinaryFormat → Nat
  | single => 0x80000000
  | double => 0x8000000000000000

/-- The weight of the last place of a subnormal number is two to this power. -/
def lowestExponent : BinaryFormat → Int
  | single => -149
  | double => -1074

/-- The magnitude word of infinity: an exponent field of ones and an empty fraction. -/
def infinity : BinaryFormat → Nat
  | single => 0x7f800000
  | double => 0x7ff0000000000000

theorem leadingBit_eq (f : BinaryFormat) : f.leadingBit = Nat.pow 2 f.fractionBits := by
  cases f <;> decide

theorem leadingBit_pos (f : BinaryFormat) : 0 < f.leadingBit := by
  cases f <;> decide

theorem infinity_add_leadingBit (f : BinaryFormat) : f.infinity + f.leadingBit = f.signBit := by
  cases f <;> decide

theorem infinity_lt_signBit (f : BinaryFormat) : f.infinity < f.signBit := by
  cases f <;> decide

end BinaryFormat

/-- A number of format `f`: its sign and its magnitude word. -/
structure Binary (f : BinaryFormat) where
  negative : Bool
  magnitude : Nat
  magnitude_lt : magnitude < f.signBit
  deriving DecidableEq

abbrev Single := Binary .single

abbrev Double := Binary .double

namespace Binary

variable {f : BinaryFormat}

/-- The finite or infinite number with this magnitude word, where larger words mean infinity. -/
def ofMagnitude (negative : Bool) (magnitude : Nat) : Binary f :=
  ⟨negative, min magnitude f.infinity,
    Nat.lt_of_le_of_lt (Nat.min_le_right ..) f.infinity_lt_signBit⟩

def zero : Binary f :=
  ofMagnitude false 0

def infinity (negative : Bool) : Binary f :=
  ofMagnitude negative f.infinity

instance : Inhabited (Binary f) := ⟨zero⟩

/-- The quiet value that is not a number, with the given payload: the first bit of its fraction
is set and the others are the payload's. -/
def nan (negative : Bool) (payload : Nat) : Binary f where
  negative
  magnitude := f.infinity + (payload ||| f.leadingBit / 2) % f.leadingBit
  magnitude_lt := by
    rw [← f.infinity_add_leadingBit]
    exact Nat.add_lt_add_left (Nat.mod_lt _ f.leadingBit_pos) _

/-- What an operation without a meaningful result yields, such as zero divided by zero. -/
def invalid : Binary f :=
  nan true 0

def isNaN (x : Binary f) : Bool :=
  decide (f.infinity < x.magnitude)

def isInfinite (x : Binary f) : Bool :=
  x.magnitude == f.infinity

def isZero (x : Binary f) : Bool :=
  x.magnitude == 0

def fraction (x : Binary f) : Nat :=
  x.magnitude % f.leadingBit

/-- The same value with its first fraction bit set, for a value that is not a number. -/
def quiet (x : Binary f) : Binary f :=
  nan x.negative x.fraction

/-- The integer `m` of a finite magnitude `m · 2^e`, where `e` is the `exponent`. -/
def significand (x : Binary f) : Nat :=
  if x.magnitude < f.leadingBit then x.magnitude else f.leadingBit + x.fraction

/-- The power of two that weighs the last place of a finite number. Subnormal numbers share the
one of the smallest normal numbers. -/
def exponent (x : Binary f) : Int :=
  f.lowestExponent + (x.magnitude / f.leadingBit - 1 : Nat)

/-! ### Words -/

def bits (x : Binary f) : Nat :=
  (if x.negative then f.signBit else 0) + x.magnitude

/-- The number with this word. Bits beyond the format's width are ignored. -/
def ofBits (word : Nat) : Binary f where
  negative := word / f.signBit % 2 == 1
  magnitude := word % f.signBit
  magnitude_lt := Nat.mod_lt _ (Nat.zero_lt_of_lt f.infinity_lt_signBit)

theorem bits_injective {x y : Binary f} (h : x.bits = y.bits) : x = y := by
  obtain ⟨nx, mx, hx⟩ := x
  obtain ⟨ny, my, hy⟩ := y
  cases nx <;> cases ny <;> simp [bits] at h ⊢ <;> omega

/-! ### Order -/

/-- The position of a number in the order of numbers. Both zeros have position 0. -/
def rank (x : Binary f) : Int :=
  if x.negative then -x.magnitude else x.magnitude

/-- The order of two numbers. A value that is not a number has no place in it. -/
def compare? (x y : Binary f) : Option Ordering :=
  if x.isNaN || y.isNaN then none else some (compare x.rank y.rank)

/-- Whether the first number is at most the second, which no comparison with a value that is not a
number affirms. -/
def atMost (x y : Binary f) : Bool :=
  match x.compare? y with
  | some order => order.isLE
  | none => false

end Binary

end Raster
