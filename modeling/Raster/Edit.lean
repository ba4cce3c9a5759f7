import Raster.Expr.Evaluation

/-!
# Changes of images as data

Every way to make an image and every way to change one, over leaves that are still to be found or
over views. A run of such steps on one image is a list of edits.
-/

namespace Raster

inductive Creation (Leaf : PixelFormat → Type) (f : PixelFormat) where
  | blank
  | zeroed (size : Size)
  | filled (size : Size) (value : Pixel f)
  | ofArray (size : Size) (pixels : Array (Pixel f))
  | ofExpr (e : Expr Leaf f)
  | ofConverted {g : PixelFormat} (conversion : Conversion g.kind f.kind) (source : Leaf g)
  | ofView (source : Leaf f)

namespace Creation

variable {Leaf Other : PixelFormat → Type} {f : PixelFormat}

def mapM {m : Type → Type} [Monad m] (find : {f : PixelFormat} → Leaf f → m (Other f)) :
    Creation Leaf f → m (Creation Other f)
  | blank => pure blank
  | zeroed size => pure (zeroed size)
  | filled size value => pure (filled size value)
  | ofArray size pixels => pure (ofArray size pixels)
  | ofExpr e => return ofExpr (← e.mapM find)
  | ofConverted conversion source => return ofConverted conversion (← find source)
  | ofView source => return ofView (← find source)

/-- The outcome of making the image. It is of use only if there is no failure. -/
def run : Creation ViewLeaf f → Outcome (Image (Pixel f))
  | blank => .done .blank
  | zeroed size => .done (.zeroed size.width size.height)
  | filled size value => .done (.filled size.width size.height value)
  | ofArray size pixels =>
    .ofExcept .blank ((Image.ofArray size.width size.height pixels).mapError .error)
  | ofExpr e => Image.ofExpr e
  | ofConverted conversion source => Image.ofConverted conversion source
  | ofView source => .ofExcept .blank (source.toImage.mapError .fault)

end Creation

inductive Edit (Leaf : PixelFormat → Type) (f : PixelFormat) where
  | assign (e : Expr Leaf f)
  | update (e : Expr (WithSelf f Leaf) f)
  | assignConverted {g : PixelFormat} (conversion : Conversion g.kind f.kind) (source : Leaf g)
  | resize (size : Size) (value : Option (Pixel f))
  | set (position : Position) (value : Pixel f)
  | setInLine (y : UInt32) (x : Nat) (value : Pixel f)
  | applyLine (y : UInt32) (rule : Nat → Pixel f → Pixel f)
  | fill (value : Pixel f)
  | apply (rule : Nat → Pixel f → Pixel f)

namespace Edit

variable {Leaf Other : PixelFormat → Type} {f : PixelFormat}

/-! ### Edits by rule -/

def fillLine (y : UInt32) (value : Pixel f) : Edit Leaf f :=
  applyLine y fun _ _ => value

/-- Writes the given values to the first pixels of row `y`. What exceeds the row is ignored. -/
def setLine (y : UInt32) (values : Array (Pixel f)) : Edit Leaf f :=
  applyLine y fun x old => values[x]?.getD old

def addToAll (value : Pixel f) : Edit Leaf f :=
  apply fun _ old => old + value

/-- The pixel nearest to an index, counted modulo `modulus`. -/
def indexPixel (modulus i : Nat) : Pixel f :=
  (Conversion.ofNumber (.natural 32) f.kind).apply (Level.ofNat (i % modulus) : Level 32)

/-- Sets every pixel to its index, counted modulo `modulus`. -/
def setToIndex (modulus : Nat) : Edit Leaf f :=
  apply fun i _ => indexPixel modulus i

/-- Adds its index, counted modulo `modulus`, to every pixel. -/
def addIndex (modulus : Nat) : Edit Leaf f :=
  apply fun i old => old + indexPixel modulus i

/-- Takes the range that starts at `low` to one that starts at zero and is `factor` times as
wide. -/
def stretch (factor low : Pixel f) : Edit Leaf f :=
  apply fun _ old => factor * (old - low)

/-! ### Running -/

def mapM {m : Type → Type} [Monad m] (find : {f : PixelFormat} → Leaf f → m (Other f)) :
    Edit Leaf f → m (Edit Other f)
  | assign e => return assign (← e.mapM find)
  | update e => return update (← e.mapM (WithSelf.mapM find))
  | assignConverted conversion source => return assignConverted conversion (← find source)
  | resize size value => pure (resize size value)
  | set position value => pure (set position value)
  | setInLine y x value => pure (setInLine y x value)
  | applyLine y rule => pure (applyLine y rule)
  | fill value => pure (fill value)
  | apply rule => pure (apply rule)

def run (img : Image (Pixel f)) : Edit ViewLeaf f → Outcome (Image (Pixel f))
  | assign e => img.assign e
  | update e => img.update e
  | assignConverted conversion source => img.assignConverted conversion source
  | resize size value =>
    let (resized, told) := img.resize size value
    ⟨resized, Reselection.records told, none⟩
  | set position value => .ofExcept img ((img.set position value).mapError .fault)
  | setInLine y x value => .ofExcept img (img.setInLine y x value)
  | applyLine y rule => .ofExcept img ((img.applyLine y rule).mapError .error)
  | fill value => .done (img.fill value)
  | apply rule => .done (img.apply rule)

end Edit

end Raster
