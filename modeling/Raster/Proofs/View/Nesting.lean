import Raster.Image.Text
import Raster.Proofs.View.Compact
import Raster.Proofs.View.Window

/-!
# Windows of windows

A rectangle has a window exactly if it fits into the view, by exact sums of coordinates, and what does
not fit is refused by name. A window of a window is cut out of data that end with the outer window,
and it is the window of the composed rectangle that no read can tell from it. A rectangle is compared
with the window that it is cut out of, and not with what lies around that window.
-/

namespace Raster

/-! ### Rectangles in rectangles -/

namespace Rect

/-- No sum of an origin and an extent exceeds the bounds. -/
def FitsIn (rect : Rect) (bounds : Size) : Prop :=
  rect.origin.x.toNat + rect.size.width.toNat ≤ bounds.width.toNat ∧
    rect.origin.y.toNat + rect.size.height.toNat ≤ bounds.height.toNat

instance (rect : Rect) (bounds : Size) : Decidable (rect.FitsIn bounds) :=
  inferInstanceAs (Decidable (_ ∧ _))

/-- The inner rectangle in the coordinates of what the outer one is cut out of: its origin is the sum
of both, and a coordinate can hold it. -/
structure IsComposedOf (composed outer inner : Rect) : Prop where
  x_eq : composed.origin.x.toNat = outer.origin.x.toNat + inner.origin.x.toNat
  y_eq : composed.origin.y.toNat = outer.origin.y.toNat + inner.origin.y.toNat
  size_eq : composed.size = inner.size

variable {outer inner composed : Rect} {bounds : Size}

theorem exists_isComposedOf (outerFits : outer.FitsIn bounds) (innerFits : inner.FitsIn outer.size) :
    ∃ composed : Rect, composed.IsComposedOf outer inner := by
  obtain ⟨outerX, outerY⟩ := outerFits
  obtain ⟨innerX, innerY⟩ := innerFits
  have boundX := bounds.width.toNat_lt
  have boundY := bounds.height.toNat_lt
  have x : outer.origin.x.toNat + inner.origin.x.toNat < UInt32.size := by
    simp only [UInt32.size]
    omega
  have y : outer.origin.y.toNat + inner.origin.y.toNat < UInt32.size := by
    simp only [UInt32.size]
    omega
  exact ⟨⟨⟨.ofNat _, .ofNat _⟩, inner.size⟩, UInt32.toNat_ofNat_of_lt' x,
    UInt32.toNat_ofNat_of_lt' y, rfl⟩

theorem IsComposedOf.fitsIn (isComposed : composed.IsComposedOf outer inner)
    (outerFits : outer.FitsIn bounds) (innerFits : inner.FitsIn outer.size) :
    composed.FitsIn bounds := by
  obtain ⟨outerX, outerY⟩ := outerFits
  obtain ⟨innerX, innerY⟩ := innerFits
  rw [FitsIn, isComposed.x_eq, isComposed.y_eq, isComposed.size_eq]
  omega

theorem FitsIn.area_ne_zero (innerFits : inner.FitsIn outer.size) (pixels : inner.area ≠ 0) :
    outer.area ≠ 0 := by
  obtain ⟨columns, rows⟩ := innerFits
  rw [area, Size.area, Nat.mul_ne_zero_iff] at *
  omega

/-- Where the pixels of a rectangle start in data whose rows are one stride apart. -/
def start (rect : Rect) (stride : Nat) : Nat :=
  rect.origin.y.toNat * stride + rect.origin.x.toNat

/-- Where its last row of pixels ends. -/
def stop (rect : Rect) (stride : Nat) : Nat :=
  (rect.origin.y.toNat + rect.size.height.toNat - 1) * stride + rect.origin.x.toNat +
    rect.size.width.toNat

theorem IsComposedOf.start_eq (isComposed : composed.IsComposedOf outer inner) (stride : Nat) :
    composed.start stride = outer.start stride + inner.start stride := by
  rw [start, start, start, isComposed.x_eq, isComposed.y_eq, Nat.add_mul]
  omega

theorem IsComposedOf.stop_eq (isComposed : composed.IsComposedOf outer inner)
    (pixels : inner.area ≠ 0) (stride : Nat) :
    composed.stop stride = outer.start stride + inner.stop stride := by
  have rows : inner.size.height.toNat ≠ 0 := (Nat.mul_ne_zero_iff.mp pixels).2
  have lastRow : outer.origin.y.toNat + inner.origin.y.toNat + inner.size.height.toNat - 1 =
      outer.origin.y.toNat + (inner.origin.y.toNat + inner.size.height.toNat - 1) := by omega
  rw [stop, stop, start, isComposed.x_eq, isComposed.y_eq, isComposed.size_eq, lastRow, Nat.add_mul]
  omega

end Rect

/-- A part of a part can be cut out at once. -/
theorem Slice.extract_extract {α : Type} (s part inner : Slice α) (start stop start' stop' : Nat)
    (outer : s.extract start stop = .ok part) (nested : part.extract start' stop' = .ok inner) :
    s.extract (start + start') (start + stop') = .ok inner := by
  unfold extract at *
  split at outer
  next bounds =>
    cases outer
    dsimp only at nested
    split at nested
    next inside =>
      cases nested
      rw [dif_pos (by omega)]
      congr 2 <;> omega
    next => cases nested
  next => cases outer

namespace View

section

variable {α : Type}

/-! ### One window, and another in it -/

theorem subView_of_fitsIn (v : View α) (wf : v.WellFormed) (rect : Rect) (fits : rect.FitsIn v.size) :
    ∃ u, v.subView rect = .ok u ∧ u.size = rect.size ∧
      u.IsWindowOf v rect.origin.x.toNat rect.origin.y.toNat :=
  v.subView_of_contains wf rect ((Rect.ofSize_contains_iff v.size rect).mpr fits)

theorem subView_of_not_fitsIn (v : View α) (rect : Rect) (outside : ¬rect.FitsIn v.size) :
    v.subView rect = .error (.error (.viewOutOfBounds rect v.size)) := by
  apply v.subView_of_not_contains rect
  rw [← Bool.not_eq_true, Rect.ofSize_contains_iff]
  exact outside

theorem fitsIn_of_subView (v u : View α) (rect : Rect) (returned : v.subView rect = .ok u) :
    rect.FitsIn v.size := by
  apply Classical.byContradiction
  intro outside
  rw [v.subView_of_not_fitsIn rect outside] at returned
  cases returned

/-- What a rectangle without pixels gives is the start of the data without any item. -/
theorem subView_of_empty (v : View α) (rect : Rect) (fits : rect.FitsIn v.size)
    (empty : rect.area = 0) :
    v.subView rect = .ok ⟨v.data.empty, rect.size.width, rect.size.height, v.stride⟩ := by
  have inside := (Rect.ofSize_contains_iff v.size rect).mpr fits
  rw [subView, inside, if_neg (by simp), if_pos empty]
  rfl

theorem subView_eq_ok_iff (v u : View α) (rect : Rect) (fits : rect.FitsIn v.size)
    (pixels : rect.area ≠ 0) :
    v.subView rect = .ok u ↔ ∃ data,
      v.data.extract (rect.start v.stride) (rect.stop v.stride) = .ok data ∧
      ⟨data, rect.size.width, rect.size.height, v.stride⟩ = u := by
  have inside := (Rect.ofSize_contains_iff v.size rect).mpr fits
  rw [subView, inside, if_neg (by simp), if_neg pixels]
  simp only [bind_eq_ok_iff, pure_eq_ok_iff, liftFault_eq_ok_iff, Rect.start, Rect.stop]

/-- The window of a window and the window of the composed rectangle start at the same item and end
with the same one. Without pixels they may start anywhere, but have the same items too: none. -/
theorem subView_of_isComposedOf (v u w : View α) (wf : v.WellFormed) (outer inner composed : Rect)
    (isComposed : composed.IsComposedOf outer inner) (first : v.subView outer = .ok u)
    (second : u.subView inner = .ok w) :
    ∃ direct, v.subView composed = .ok direct ∧ w.compact = direct.compact := by
  obtain ⟨uSize, window⟩ := v.isWindowOf_of_subView u wf outer first
  have stride := window.stride_eq
  have outerFits := v.fitsIn_of_subView u outer first
  have innerFits := u.fitsIn_of_subView w inner second
  have fits := isComposed.fitsIn outerFits (uSize ▸ innerFits)
  have sameArea : composed.area = inner.area := congrArg Size.area isComposed.size_eq
  by_cases empty : inner.area = 0
  · rw [u.subView_of_empty inner innerFits empty] at second
    cases second
    refine ⟨_, v.subView_of_empty composed fits (sameArea.trans empty), ?_⟩
    simp only [compact, mk.injEq, isComposed.size_eq, stride, and_true]
    exact Slice.compact_empty_eq u.data v.data
  · have outerPixels := (uSize ▸ innerFits : inner.FitsIn outer.size).area_ne_zero empty
    obtain ⟨part, cut, rfl⟩ := (v.subView_eq_ok_iff u outer outerFits outerPixels).mp first
    obtain ⟨inside, cutAgain, rfl⟩ := (subView_eq_ok_iff _ w inner innerFits empty).mp second
    refine ⟨⟨inside, inner.size.width, inner.size.height, v.stride⟩, ?_, rfl⟩
    apply (v.subView_eq_ok_iff _ composed fits (sameArea ▸ empty)).mpr
    refine ⟨inside, ?_, by rw [isComposed.size_eq]⟩
    rw [isComposed.start_eq, isComposed.stop_eq empty]
    exact v.data.extract_extract part inside _ _ _ _ cut cutAgain

/-- A chain of windows shows what a single window shows, however long it is. -/
theorem subViews_eq_subView (rects : List Rect) (nonempty : rects ≠ []) (v w : View α)
    (wf : v.WellFormed) (returned : v.subViews rects = .ok w) :
    ∃ rect direct, v.subView rect = .ok direct ∧ w.compact = direct.compact ∧
      rect.origin.x.toNat = (Rect.totalOffset rects).1 ∧
      rect.origin.y.toNat = (Rect.totalOffset rects).2 := by
  -- The rest of a chain starts in its first window, and a window in that one is composed with it.
  induction rects generalizing v with
  | nil => exact absurd rfl nonempty
  | cons first rest ih =>
    simp only [subViews, List.foldlM_cons, bind_eq_ok_iff] at returned
    obtain ⟨u, cut, others⟩ := returned
    by_cases last : rest = []
    · subst last
      cases others
      exact ⟨first, w, cut, rfl, rfl, rfl⟩
    · obtain ⟨uSize, window⟩ := v.isWindowOf_of_subView u wf first cut
      obtain ⟨inner, nested, cutAgain, same, x, y⟩ := ih last u window.wellFormed others
      obtain ⟨composed, isComposed⟩ := Rect.exists_isComposedOf (v.fitsIn_of_subView u first cut)
        (uSize ▸ u.fitsIn_of_subView nested inner cutAgain)
      obtain ⟨direct, found, sameDirect⟩ :=
        v.subView_of_isComposedOf u nested wf first inner composed isComposed cut cutAgain
      refine ⟨composed, direct, found, same.trans sameDirect, ?_, ?_⟩
      · rw [isComposed.x_eq, x]
        rfl
      · rw [isComposed.y_eq, y]
        rfl

/-! ### Reads of views with the same items -/

theorem get_compact (v : View α) (x y : UInt32) : v.compact.get x y = v.get x y := by
  simp only [get, compact, Slice.read_compact]

theorem getLinear_compact (v : View α) (i : Nat) : v.compact.getLinear i = v.getLinear i := by
  unfold getLinear
  simp only [compact, Slice.read_compact]
  rfl

theorem line_compact (v : View α) (y : UInt32) :
    (v.compact.line y).map Slice.toList = (v.line y).map Slice.toList := by
  have same (row other : Slice α) (items : row.compact = other.compact) :
      row.toList = other.toList := (Slice.compact_eq_iff row other).mp items
  unfold line
  by_cases outside : v.height ≤ y
  · rw [if_pos outside, if_pos (show v.compact.height ≤ y from outside)]
    rfl
  · rw [if_neg outside, if_neg (show ¬v.compact.height ≤ y from outside)]
    by_cases empty : v.width = 0
    · rw [if_pos empty, if_pos (show v.compact.width = 0 from empty)]
      exact congrArg Except.ok (same _ _ (Slice.compact_empty_eq _ _))
    · rw [if_neg empty, if_neg (show ¬v.compact.width = 0 from empty)]
      exact ((v.row_agree y.toNat).mapError Failure.fault).map_eq same

theorem pixels_compact (v : View α) : v.compact.pixels = v.pixels := by
  unfold pixels
  simp only [get_compact]
  rfl

end

variable {f : PixelFormat}

theorem listing_compact (v : View (Pixel f)) : v.compact.listing = v.listing := by
  unfold listing preview previewLine
  simp only [get_compact]
  rfl

/-- No read tells the views apart. What one read gives or the fault that it ends with, the same read
of the other does too. -/
structure IndistinguishableFrom (u v : View (Pixel f)) : Prop where
  size_eq : u.size = v.size
  get_eq : ∀ x y, u.get x y = v.get x y
  getLinear_eq : ∀ i, u.getLinear i = v.getLinear i
  read_eq : ∀ i, u.read i = v.read i
  line_eq : ∀ y, (u.line y).map Slice.toList = (v.line y).map Slice.toList
  values_eq : u.values = v.values
  pixels_eq : u.pixels = v.pixels
  listing_eq : u.listing = v.listing

theorem indistinguishableFrom_of_compact_eq (u v : View (Pixel f)) (same : u.compact = v.compact) :
    u.IndistinguishableFrom v where
  size_eq := by rw [← u.size_compact, same, v.size_compact]
  get_eq x y := by rw [← u.get_compact, same, v.get_compact]
  getLinear_eq i := by rw [← u.getLinear_compact, same, v.getLinear_compact]
  read_eq i := by rw [← u.read_compact, same, v.read_compact]
  line_eq y := by rw [← u.line_compact, same, v.line_compact]
  values_eq := by rw [← u.values_compact, same, v.values_compact]
  pixels_eq := by rw [← u.pixels_compact, same, v.pixels_compact]
  listing_eq := by rw [← u.listing_compact, same, v.listing_compact]

/-! ### What is cut out -/

/-- Windows are cut out of the parent for the rectangles that fit into it, and for no others. A window
of a window is one of the parent, and does not go beyond the window it is cut out of. -/
structure CutsWindows (cut : Rect → Except Failure (View (Pixel f))) (parent : View (Pixel f)) :
    Prop where
  accepts_iff : ∀ rect, (∃ u, cut rect = .ok u) ↔ rect.FitsIn parent.size
  refuses : ∀ rect, ¬rect.FitsIn parent.size →
    cut rect = .error (.error (.viewOutOfBounds rect parent.size))
  get_eq : ∀ rect u, cut rect = .ok u → u.size = rect.size ∧
    ∀ x y, x < u.width → y < u.height → u.get x y =
      parent.get (.ofNat (rect.origin.x.toNat + x.toNat)) (.ofNat (rect.origin.y.toNat + y.toNat))
  composes : ∀ outer inner u w, cut outer = .ok u → u.subView inner = .ok w →
    ∃ composed direct, composed.IsComposedOf outer inner ∧ cut composed = .ok direct ∧
      w.IndistinguishableFrom direct
  encloses : ∀ outer inner u, cut outer = .ok u → ¬inner.FitsIn outer.size →
    u.subView inner = .error (.error (.viewOutOfBounds inner outer.size))

theorem cutsWindows_subView (v : View (Pixel f)) (wf : v.WellFormed) : CutsWindows v.subView v where
  accepts_iff rect := by
    constructor
    · rintro ⟨u, returned⟩
      exact v.fitsIn_of_subView u rect returned
    · intro fits
      obtain ⟨u, returned, -⟩ := v.subView_of_fitsIn wf rect fits
      exact ⟨u, returned⟩
  refuses := v.subView_of_not_fitsIn
  get_eq rect u returned := by
    obtain ⟨size, window⟩ := v.isWindowOf_of_subView u wf rect returned
    exact ⟨size, window.get_eq wf⟩
  composes outer inner u w first second := by
    have uSize := (v.isWindowOf_of_subView u wf outer first).1
    obtain ⟨composed, isComposed⟩ := Rect.exists_isComposedOf (v.fitsIn_of_subView u outer first)
      (uSize ▸ u.fitsIn_of_subView w inner second)
    obtain ⟨direct, found, same⟩ :=
      v.subView_of_isComposedOf u w wf outer inner composed isComposed first second
    exact ⟨composed, direct, isComposed, found, indistinguishableFrom_of_compact_eq w direct same⟩
  encloses outer inner u first outside := by
    rw [← (v.isWindowOf_of_subView u wf outer first).1] at outside ⊢
    exact u.subView_of_not_fitsIn inner outside

end View

variable {f : PixelFormat}

/-- Views and images cut windows for exactly the rectangles that fit into them, and never fault. A
window of a window is the window of the composed rectangle, and so is the last of any chain. -/
theorem View.windows_compose :
    (∀ v : View (Pixel f), v.Reachable → CutsWindows v.subView v) ∧
    (∀ img : Image (Pixel f), img.Reachable → CutsWindows img.view img.asView) ∧
    ∀ (img : Image (Pixel f)) (rects : List Rect) (w : View (Pixel f)), img.Reachable → rects ≠ [] →
      img.asView.subViews rects = .ok w → ∃ rect direct, img.view rect = .ok direct ∧
        w.IndistinguishableFrom direct ∧ rect.origin.x.toNat = (Rect.totalOffset rects).1 ∧
        rect.origin.y.toNat = (Rect.totalOffset rects).2 := by
  refine ⟨fun v reachable => v.cutsWindows_subView reachable.wellFormed,
    fun img reachable => img.asView.cutsWindows_subView reachable.wellFormed.asView,
    fun img rects w reachable nonempty returned => ?_⟩
  obtain ⟨rect, direct, found, same, x, y⟩ :=
    subViews_eq_subView rects nonempty img.asView w reachable.wellFormed.asView returned
  exact ⟨rect, direct, found, indistinguishableFrom_of_compact_eq w direct same, x, y⟩

/-- Four columns and three rows of the image, and the far corner of these. One column more is there in
the image, but not in the window. A rectangle that wraps around does not fit, and one without pixels
fits behind the last pixel. -/
theorem View.windows_compose_farCorner :
    let outer : Rect := ⟨⟨1, 1⟩, ⟨4, 3⟩⟩
    let inner : Rect := ⟨⟨2, 1⟩, ⟨2, 2⟩⟩
    let wide : Rect := ⟨⟨2, 1⟩, ⟨3, 2⟩⟩
    let wrapping : Rect := ⟨⟨4294967295, 0⟩, ⟨3, 1⟩⟩
    Image.ramp.Reachable ∧ ∃ u w, Image.ramp.view outer = .ok u ∧ u.subView inner = .ok w ∧
      (∃ composed direct, composed.IsComposedOf outer inner ∧
        Image.ramp.view composed = .ok direct ∧ w.IndistinguishableFrom direct) ∧
      u.subView wide = .error (.error (.viewOutOfBounds wide ⟨4, 3⟩)) ∧
      (∃ direct, Image.ramp.view ⟨⟨3, 2⟩, wide.size⟩ = .ok direct) ∧
      u.subView wrapping = .error (.error (.viewOutOfBounds wrapping u.size)) ∧
      (∃ empty, Image.ramp.view ⟨⟨6, 4⟩, ⟨0, 0⟩⟩ = .ok empty) ∧
      ∃ rect direct, Image.ramp.view rect = .ok direct ∧ w.IndistinguishableFrom direct ∧
        rect.origin.x.toNat = 3 ∧ rect.origin.y.toNat = 2 := by
  intro outer inner wide wrapping
  obtain ⟨u, w, first, second, chain⟩ : ∃ u w, Image.ramp.view outer = .ok u ∧
      u.subView inner = .ok w ∧ Image.ramp.asView.subViews [outer, inner] = .ok w :=
    ⟨_, _, rfl, rfl, rfl⟩
  have reachable : u.Reachable := ⟨Image.ramp, Image.ramp_reachable, [outer], by
    rw [View.subViews, List.foldlM_cons, show Image.ramp.asView.subView outer = .ok u from first]
    rfl⟩
  obtain ⟨onViews, onImages, onChains⟩ := View.windows_compose (f := .gray8)
  have ofImage := onImages Image.ramp Image.ramp_reachable
  have size := (ofImage.get_eq outer u first).1
  refine ⟨Image.ramp_reachable, u, w, first, second, ofImage.composes outer inner u w first second,
    ofImage.encloses outer wide u first (by decide), (ofImage.accepts_iff _).mpr (by decide),
    (onViews u reachable).refuses wrapping (by rw [size]; decide),
    (ofImage.accepts_iff _).mpr (by decide), ?_⟩
  exact onChains Image.ramp [outer, inner] w Image.ramp_reachable (by simp) chain

end Raster
