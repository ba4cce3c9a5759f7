import Raster.Channels
import Raster.Edit

/-!
# Workspaces

A workspace holds images of all formats under names. A command makes or changes images by their
names. A command that cannot find what it names changes nothing, and all others leave what the
operation on the image leaves.
-/

namespace Raster

/-- An image together with its format. -/
structure AnyImage where
  format : PixelFormat
  image : Image (Pixel format)

/-- A view together with its format. -/
structure AnyView where
  format : PixelFormat
  view : View (Pixel format)

/-- A named image, or the last of a chain of windows onto it. -/
structure Source where
  image : String
  windows : List Rect

/-- The leaves of trees over names. -/
abbrev SourceLeaf (_ : PixelFormat) : Type :=
  Source

structure Workspace where
  images : List (String × AnyImage)

namespace Workspace

/-- The workspace without images. -/
def empty : Workspace :=
  ⟨[]⟩

def find? (w : Workspace) (name : String) : Option AnyImage :=
  w.images.lookup name

/-- The workspace in which the name stands for the image, whatever it stood for before. -/
def insert (w : Workspace) (name : String) (image : AnyImage) : Workspace :=
  ⟨(name, image) :: w.images.filter fun (other, _) => other != name⟩

/-! ### Finding images and views -/

def get (w : Workspace) (name : String) : Except Failure AnyImage :=
  match w.find? name with
  | some image => .ok image
  | none => .error (.unknownImage name)

/-- The named image, which must have the given format. -/
def getAs (w : Workspace) (f : PixelFormat) (name : String) :
    Except Failure (Image (Pixel f)) := do
  let found ← w.get name
  if h : found.format = f then return h ▸ found.image else throw (.otherFormat name)

def view (w : Workspace) (source : Source) : Except Failure AnyView := do
  let found ← w.get source.image
  return ⟨found.format, ← found.image.asView.subViews source.windows⟩

/-- The view of a source, which must have the given format. -/
def viewAs (w : Workspace) {f : PixelFormat} (source : Source) : Except Failure (View (Pixel f)) := do
  (← w.getAs f source.image).asView.subViews source.windows

end Workspace

/-- The commands that change a workspace. -/
inductive Command where
  | create (name : String) (f : PixelFormat) (creation : Creation SourceLeaf f)
  | copy (source name : String)
  | edit (name : String) (f : PixelFormat) (change : Edit SourceLeaf f)
  | splitComplex (source re im : String)
  | joinComplex (name re im : String)
  | splitRgba (source r g b a : String)
  | grayscale (name r g b : String)
  /-- Exchanges two images. -/
  | swap (a b : String)
  /-- Leaves an image without pixels. -/
  | take (name : String)

namespace Command

/-- The grayscale image of three images of one format, whose pixels must be single numbers. -/
def grayscaleOf (w : Workspace) (r g b : String) : Except Failure (Image Single) := do
  let ⟨f, red⟩ ← w.get r
  let green ← w.getAs f g
  let blue ← w.getAs f b
  match Pixel.toDouble? f with
  | some toDouble => Image.grayscale toDouble red green blue
  | none => throw (.otherFormat r)

/-- The parts of a complex image under two names. -/
def runSplitComplex (w : Workspace) (source re im : String) : Except Failure Workspace := do
  let (reals, imaginaries) := Image.splitComplex (← w.getAs .complexFloat source)
  return (w.insert re ⟨.grayFloat, reals⟩).insert im ⟨.grayFloat, imaginaries⟩

/-- A complex image of two parts. -/
def runJoinComplex (w : Workspace) (name re im : String) : Except Failure Workspace := do
  let joined ← Image.joinComplex (← w.getAs .grayFloat re) (← w.getAs .grayFloat im)
  return w.insert name ⟨.complexFloat, joined⟩

/-- The channels of a colour image under four names. -/
def runSplitRgba (w : Workspace) (source r g b a : String) : Except Failure Workspace := do
  let (red, green, blue, opacity) := Image.splitRgba (← w.getAs .rgba8 source)
  let w := (w.insert r ⟨.gray8, red⟩).insert g ⟨.gray8, green⟩
  return (w.insert b ⟨.gray8, blue⟩).insert a ⟨.gray8, opacity⟩

/-- Two images under each other's names. -/
def runSwap (w : Workspace) (a b : String) : Except Failure Workspace := do
  let first ← w.get a
  let second ← w.get b
  return (w.insert a second).insert b first

/-- An image without pixels in the place of one. -/
def runTake (w : Workspace) (name : String) : Except Failure Workspace := do
  let found ← w.get name
  return w.insert name ⟨found.format, .blank⟩

/-- Makes an image, and stores it only if that does not fail. -/
def runCreate (w : Workspace) (name : String) {f : PixelFormat} (creation : Creation SourceLeaf f) :
    Outcome Workspace :=
  match creation.mapM w.viewAs with
  | .error failure => .failed w failure
  | .ok creation =>
    let made := creation.run
    if made.failure.isNone then made.map fun img => w.insert name ⟨f, img⟩ else made.map fun _ => w

/-- Changes an image, and stores what the change leaves. -/
def runEdit (w : Workspace) (name : String) {f : PixelFormat} (change : Edit SourceLeaf f) :
    Outcome Workspace :=
  match change.mapM w.viewAs, w.getAs f name with
  | .ok change, .ok img => (change.run img).map fun img => w.insert name ⟨f, img⟩
  | .error failure, _ => .failed w failure
  | .ok _, .error failure => .failed w failure

/-- The outcome of a command. -/
def run (w : Workspace) : Command → Outcome Workspace
  | create name _ creation => runCreate w name creation
  | copy source name => .ofExcept w ((w.get source).map (w.insert name))
  | edit name _ change => runEdit w name change
  | splitComplex source re im => .ofExcept w (runSplitComplex w source re im)
  | joinComplex name re im => .ofExcept w (runJoinComplex w name re im)
  | splitRgba source r g b a => .ofExcept w (runSplitRgba w source r g b a)
  | grayscale name r g b =>
    .ofExcept w ((grayscaleOf w r g b).map fun img => w.insert name ⟨.grayFloat, img⟩)
  | swap a b => .ofExcept w (runSwap w a b)
  | take name => .ofExcept w (runTake w name)

end Command

end Raster
