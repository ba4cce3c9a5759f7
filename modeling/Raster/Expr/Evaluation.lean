import Raster.Expr
import Raster.Outcome

/-!
# Evaluating expressions into images

An expression over views is evaluated pixel by pixel into an image, without images for its subtrees.
`Image.assign` gives the image the size that the views agree on. `Image.update` keeps the size and
lets the expression read the image itself: a pixel is read before it is written, and no later pixel
depends on it. Both refuse disagreeing sizes before they change anything.
-/

namespace Raster

/-- The leaves of an expression that can be evaluated. -/
abbrev ViewLeaf (f : PixelFormat) : Type :=
  View (Pixel f)

namespace Expr

variable {f : PixelFormat}

def read (e : Expr ViewLeaf f) (i : Nat) : Except Fault (Pixel f) :=
  e.eval (fun v i => v.read i) i

def viewSize? (e : Expr ViewLeaf f) : Except Error (Option Size) :=
  e.size? fun v => v.size

end Expr

namespace WithSelf

variable {target f : PixelFormat}

/-- The size of a leaf of a tree that is evaluated into an image of the given size. -/
def sizeOf (size : Size) : WithSelf target ViewLeaf f → Size
  | self => size
  | other v => v.size

/-- The pixel of a leaf of a tree that is evaluated into an image with the given pixels. -/
def read (pixels : Slice (Pixel target)) :
    {f : PixelFormat} → WithSelf target ViewLeaf f → Nat → Except Fault (Pixel f)
  | _, self, i => pixels.read i
  | _, other v, i => v.read i

end WithSelf

namespace Image

variable {f g : PixelFormat}

/-- Evaluates an expression into an image, which takes on the size of the views. The size of an
image stays if there is no view. Views of different sizes are refused before anything changes. -/
def assign (img : Image (Pixel f)) (e : Expr ViewLeaf f) : Outcome (Image (Pixel f)) :=
  match e.viewSize? with
  | .error refusal => .failed img (.error refusal)
  | .ok size? =>
    -- No fill is needed: evaluation writes every pixel.
    let (resized, told) := img.resize (size?.getD img.size) none
    let (written, fault?) := resized.writeEach fun _ i => e.read i
    ⟨written, .evaluation f img.size :: Reselection.records told, fault?.map .fault⟩

/-- The image of an expression. It is empty if the expression has no view. -/
def ofExpr (e : Expr ViewLeaf f) : Outcome (Image (Pixel f)) :=
  blank.assign e

/-- Refuses an expression with a view that is not of the given size. -/
def checkSize (size : Size) (e : Expr (WithSelf f ViewLeaf) f) : Except Error Unit := do
  match ← e.size? fun source => source.sizeOf size with
  | some other => if other = size then pure () else throw (.geometryMismatch size other)
  | none => pure ()

/-- Evaluates an expression that may read the image into that image. All other views must have the
image's size. -/
def update (img : Image (Pixel f)) (e : Expr (WithSelf f ViewLeaf) f) : Outcome (Image (Pixel f)) :=
  match checkSize img.size e with
  | .error refusal => .failed img (.error refusal)
  | .ok () =>
    -- The rule sees the pixels written so far, and reads only the one at its own index.
    let (written, fault?) := img.writeEach fun pixels i =>
      e.eval (fun source i => source.read pixels i) i
    ⟨written, [], fault?.map .fault⟩

/-- The pixels of a view, each converted, in place of the image's own. -/
def assignConverted (img : Image (Pixel f)) (conversion : Conversion g.kind f.kind)
    (source : View (Pixel g)) : Outcome (Image (Pixel f)) :=
  let (resized, told) := img.resize source.size none
  match source.values with
  | .ok values =>
    ⟨resized.overwrite (values.map conversion.apply), Reselection.records told, none⟩
  | .error fault => ⟨resized, Reselection.records told, some (.fault fault)⟩

def ofConverted (conversion : Conversion g.kind f.kind) (source : View (Pixel g)) :
    Outcome (Image (Pixel f)) :=
  blank.assignConverted conversion source

end Image

end Raster
