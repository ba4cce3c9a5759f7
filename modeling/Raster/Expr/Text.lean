import Raster.Expr.Evaluation

/-!
# Expressions as text

The listing of a tree names each node and lists its parts, views with their previews.
-/

namespace Raster

def quoted (text : String) : String :=
  "\"" ++ text ++ "\""

namespace Operator

variable {f : PixelFormat}

def typeName : Operator f → String
  | plus => "Plus"
  | minus => "Minus"
  | times => "Times"
  | divide => "Divide"
  | modulo _ => "Modulo"

end Operator

namespace Expr

variable {Leaf : PixelFormat → Type}

/-- The text of a tree, where each leaf has a text of its own. -/
def listing (leafText : {f : PixelFormat} → Leaf f → Except Fault String) :
    {f : PixelFormat} → Expr Leaf f → Except Fault String
  | _, const value => return (Listing.tuple "ConstNode" value.listing.inline).inline
  | _, leaf source => leafText source
  | _, binary op left right => do
    let left ← left.listing leafText
    let right ← right.listing leafText
    let op := quoted ("piv_image::expr::" ++ op.typeName)
    return (Listing.record "BinaryNode" [("op", op), ("left", left), ("right", right)]).inline
  | f, cast _ inner => do
    let inner ← inner.listing leafText
    let target := quoted ("piv_image::pixel::" ++ f.typeName)
    return (Listing.record "CastNode" [("to", target), ("inner", inner)]).inline

def viewListing {f : PixelFormat} (e : Expr ViewLeaf f) : Except Fault String :=
  e.listing fun v => return (Listing.record "RefNode" [("view", ← v.listing)]).inline

end Expr

/-- The text of the leaf that stands for an image of the given size. -/
def selfListing (size : Size) : String :=
  (Listing.tuple "SelfRef" size.text).inline

end Raster
