import Raster.Failure
import Raster.Pixel.Format

/-!
# Expressions

An expression is a tree that gives a pixel for every linear index: constants, leaves that read
pixels from somewhere, operators, and casts between formats. What a leaf is, is a parameter. A tree
over names can thus be turned into one over views, and evaluation and size are defined once.
-/

namespace Raster

inductive Operator (f : PixelFormat) where
  | plus
  | minus
  | times
  | divide
  | modulo (isLevel : f.IsLevel)

namespace Operator

variable {f : PixelFormat}

def apply : Operator f → Pixel f → Pixel f → Pixel f
  | plus, p, q => p + q
  | minus, p, q => p - q
  | times, p, q => p * q
  | divide, p, q => p / q
  | modulo isLevel, p, q => p.mod isLevel q

end Operator

/-- The trees over the given leaves whose pixels have the given format. -/
inductive Expr (Leaf : PixelFormat → Type) : PixelFormat → Type where
  | const {f : PixelFormat} (value : Pixel f) : Expr Leaf f
  | leaf {f : PixelFormat} (source : Leaf f) : Expr Leaf f
  | binary {f : PixelFormat} (op : Operator f) (left right : Expr Leaf f) : Expr Leaf f
  | cast {g f : PixelFormat} (conversion : Conversion g.kind f.kind) (inner : Expr Leaf g) :
    Expr Leaf f

namespace Expr

variable {Leaf Other : PixelFormat → Type} {f : PixelFormat}

/-- The tree with another tree in the place of each leaf. -/
def bind (replace : {f : PixelFormat} → Leaf f → Expr Other f) :
    {f : PixelFormat} → Expr Leaf f → Expr Other f
  | _, const value => const value
  | _, leaf source => replace source
  | _, binary op left right => binary op (left.bind replace) (right.bind replace)
  | _, cast conversion inner => cast conversion (inner.bind replace)

def map (replace : {f : PixelFormat} → Leaf f → Other f) (e : Expr Leaf f) : Expr Other f :=
  e.bind fun source => leaf (replace source)

/-- Finds a leaf in the place of each leaf, from left to right, or fails as the first that fails. -/
def mapM {m : Type → Type} [Monad m] (find : {f : PixelFormat} → Leaf f → m (Other f)) :
    {f : PixelFormat} → Expr Leaf f → m (Expr Other f)
  | _, const value => pure (const value)
  | _, leaf source => return leaf (← find source)
  | _, binary op left right => return binary op (← left.mapM find) (← right.mapM find)
  | _, cast conversion inner => return cast conversion (← inner.mapM find)

/-- The pixel at a linear index, where each leaf is read at that index. -/
def eval (read : {f : PixelFormat} → Leaf f → Nat → Except Fault (Pixel f)) (i : Nat) :
    {f : PixelFormat} → Expr Leaf f → Except Fault (Pixel f)
  | _, const value => pure value
  | _, leaf source => read source i
  | _, binary op left right => return op.apply (← left.eval read i) (← right.eval read i)
  | _, cast conversion inner => return conversion.apply (← inner.eval read i)

/-- The size on which two operands agree. An operand without a size agrees with any. -/
def commonSize : Option Size → Option Size → Except Error (Option Size)
  | some left, some right =>
    if left = right then .ok (some left) else .error (.geometryMismatch left right)
  | some left, none => .ok (some left)
  | none, right => .ok right

/-- The size that all leaves share, if there are leaves. -/
def size? (sizeOf : {f : PixelFormat} → Leaf f → Size) :
    {f : PixelFormat} → Expr Leaf f → Except Error (Option Size)
  | _, const _ => .ok none
  | _, leaf source => .ok (some (sizeOf source))
  | _, binary _ left right => do commonSize (← left.size? sizeOf) (← right.size? sizeOf)
  | _, cast _ inner => inner.size? sizeOf

end Expr

/-- The leaves of a tree that may also read the image that it is evaluated into. -/
inductive WithSelf (target : PixelFormat) (Leaf : PixelFormat → Type) : PixelFormat → Type where
  | self : WithSelf target Leaf target
  | other {f : PixelFormat} (source : Leaf f) : WithSelf target Leaf f

namespace WithSelf

variable {target : PixelFormat} {Leaf Other : PixelFormat → Type}

/-- Replaces a leaf unless it is the image itself. -/
def mapM {m : Type → Type} [Monad m] (find : {f : PixelFormat} → Leaf f → m (Other f)) :
    {f : PixelFormat} → WithSelf target Leaf f → m (WithSelf target Other f)
  | _, self => pure self
  | _, other source => return other (← find source)

end WithSelf

end Raster
