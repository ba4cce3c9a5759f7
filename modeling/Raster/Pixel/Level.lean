/-!
# Levels

A level is what an integer channel holds: a natural number of a fixed count of bits. Its arithmetic
saturates, so a result beyond the range becomes the end of the range that it passed.
-/

namespace Raster

/-- The greatest number of the given count of bits. -/
def Level.limit (bits : Nat) : Nat :=
  Nat.pow 2 bits - 1

/-- A natural number of the given count of bits. -/
structure Level (bits : Nat) where
  toNat : Nat
  toNat_le : toNat ≤ Level.limit bits
  deriving DecidableEq

namespace Level

variable {bits : Nat}

/-- The greatest level. -/
def top : Level bits :=
  ⟨limit bits, Nat.le_refl _⟩

/-- The level nearest to a natural number. -/
def ofNat (n : Nat) : Level bits :=
  ⟨min n (limit bits), Nat.min_le_right ..⟩

instance : Inhabited (Level bits) := ⟨ofNat 0⟩

protected def add (x y : Level bits) : Level bits :=
  ofNat (x.toNat + y.toNat)

protected def sub (x y : Level bits) : Level bits :=
  ofNat (x.toNat - y.toNat)

protected def mul (x y : Level bits) : Level bits :=
  ofNat (x.toNat * y.toNat)

/-- The quotient. A positive level divided by zero is the greatest level, and zero divided by
zero is zero. -/
protected def div (x y : Level bits) : Level bits :=
  if y.toNat = 0 then if x.toNat = 0 then ofNat 0 else top else ofNat (x.toNat / y.toNat)

/-- The remainder, which is zero for a division by zero. -/
protected def mod (x y : Level bits) : Level bits :=
  if y.toNat = 0 then ofNat 0 else ofNat (x.toNat % y.toNat)

instance : Add (Level bits) := ⟨Level.add⟩
instance : Sub (Level bits) := ⟨Level.sub⟩
instance : Mul (Level bits) := ⟨Level.mul⟩
instance : Div (Level bits) := ⟨Level.div⟩
instance : Mod (Level bits) := ⟨Level.mod⟩

/-- The order of two levels. -/
def compare (x y : Level bits) : Ordering :=
  Ord.compare x.toNat y.toNat

@[ext] theorem ext {x y : Level bits} (h : x.toNat = y.toNat) : x = y := by
  obtain ⟨x, _⟩ := x
  obtain ⟨y, _⟩ := y
  simpa using h

@[simp] theorem toNat_ofNat (n : Nat) : (ofNat n : Level bits).toNat = min n (limit bits) := rfl

@[simp] theorem toNat_add (x y : Level bits) :
    (x + y).toNat = min (x.toNat + y.toNat) (limit bits) := rfl

@[simp] theorem toNat_sub (x y : Level bits) : (x - y).toNat = x.toNat - y.toNat :=
  Nat.min_eq_left (Nat.le_trans (Nat.sub_le ..) x.toNat_le)

@[simp] theorem toNat_mul (x y : Level bits) :
    (x * y).toNat = min (x.toNat * y.toNat) (limit bits) := rfl

end Level

end Raster
