import Raster.Binary.Arithmetic

/-!
# Complex numbers

The values of a complex pixel: a real and an imaginary part in single precision. Each operation
is a fixed sequence of rounded operations on the parts.
-/

namespace Raster

structure Complex where
  re : Single
  im : Single
  deriving DecidableEq

namespace Complex

instance : Inhabited Complex := ⟨⟨Binary.zero, Binary.zero⟩⟩

def ofReal (x : Single) : Complex :=
  ⟨x, Binary.zero⟩

def normSq (z : Complex) : Single :=
  z.re * z.re + z.im * z.im

def conj (z : Complex) : Complex :=
  ⟨z.re, -z.im⟩

protected def add (z w : Complex) : Complex :=
  ⟨z.re + w.re, z.im + w.im⟩

protected def sub (z w : Complex) : Complex :=
  ⟨z.re - w.re, z.im - w.im⟩

protected def mul (z w : Complex) : Complex :=
  ⟨z.re * w.re - z.im * w.im, z.re * w.im + z.im * w.re⟩

protected def div (z w : Complex) : Complex :=
  let n := w.normSq
  ⟨(z.re * w.re + z.im * w.im) / n, (z.im * w.re - z.re * w.im) / n⟩

instance : Add Complex := ⟨Complex.add⟩
instance : Sub Complex := ⟨Complex.sub⟩
instance : Mul Complex := ⟨Complex.mul⟩
instance : Div Complex := ⟨Complex.div⟩

def compare? (z w : Complex) : Option Ordering :=
  match z.re.compare? w.re with
  | some .eq => z.im.compare? w.im
  | other => other

end Complex

end Raster
