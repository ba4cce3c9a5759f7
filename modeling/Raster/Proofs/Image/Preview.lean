import Raster.Proofs.Image.Access
import Raster.Proofs.Image.Conversion
import Raster.Proofs.Text.Lines

/-!
# What the text of an image shows

The text of an image or view is a line that tells its size and storage, and a preview: a line for
each of the first rows, with the first pixels of that row, and marks where there are more. Writing
it reads pixels of that corner only, all of which are there. So it never faults, and no pixel outside
the corner has a say in it.
-/

namespace Raster

variable {f : PixelFormat}

/-! ### Lines of a preview -/

/-- The line for row `y`, of which these are the pixels that are shown. -/
def rowLine (size : Size) (y : Nat) (pixels : List (Pixel f)) : String :=
  let mark := if 16 < size.width.toNat then ["..."] else []
  "  row " ++ toString y ++ ": [" ++
    ", ".intercalate (pixels.map (fun p => p.listing.inline) ++ mark) ++ "]"

/-- A line for each row that is shown, and a last one if there are more rows. -/
def previewLines (size : Size) (rows : List (List (Pixel f))) : List String :=
  rows.mapIdx (rowLine size) ++ if 8 < size.height.toNat then ["  ..."] else []

/-- The first line: the format and size, and how the pixels are stored. -/
def headerLine (opening : String) (format : PixelFormat) (size : Size) (stored : String) : String :=
  opening ++ format.tag ++ "> \x7b " ++ Fault.extent size.width size.height ++ stored ++ " \x7d"

/-- The rows of the top left corner, as far as eight rows and sixteen columns reach, with what `get`
returns at each column and row. -/
structure IsCorner (size : Size) (get : UInt32 → UInt32 → Except Fault (Pixel f))
    (rows : List (List (Pixel f))) : Prop where
  height_eq : rows.length = min size.height.toNat 8
  width_eq : ∀ row ∈ rows, row.length = min size.width.toNat 16
  pixel : ∀ x y, x < size.width → y < size.height → x < 16 → y < 8 →
    ∃ row p, rows[y.toNat]? = some row ∧ row[x.toNat]? = some p ∧ get x y = .ok p

/-- The text can be written. Its lines are the header and those that show the corner. -/
def ShowsCorner (result : Except Fault String) (header : String) (size : Size)
    (get : UInt32 → UInt32 → Except Fault (Pixel f)) : Prop :=
  ∃ text rows, result = .ok text ∧ IsCorner size get rows ∧
    HasLines text (header :: previewLines size rows)

/-- The same pixels in the corner. -/
def AgreeOnCorner (size : Size) (get other : UInt32 → UInt32 → Except Fault (Pixel f)) : Prop :=
  ∀ x y, x < size.width → y < size.height → x < 16 → y < 8 → get x y = other x y

namespace AgreeOnCorner

variable {size : Size} {get other third : UInt32 → UInt32 → Except Fault (Pixel f)}

theorem symm (agree : AgreeOnCorner size get other) : AgreeOnCorner size other get :=
  fun x y column row left top => (agree x y column row left top).symm

theorem trans (first : AgreeOnCorner size get other) (second : AgreeOnCorner size other third) :
    AgreeOnCorner size get third :=
  fun x y column row left top =>
    (first x y column row left top).trans (second x y column row left top)

end AgreeOnCorner

theorem IsCorner.congr {size : Size} {get other : UInt32 → UInt32 → Except Fault (Pixel f)}
    {rows : List (List (Pixel f))} (corner : IsCorner size get rows)
    (agree : AgreeOnCorner size get other) : IsCorner size other rows where
  height_eq := corner.height_eq
  width_eq := corner.width_eq
  pixel x y column row left top := by
    rw [← agree x y column row left top]
    exact corner.pixel x y column row left top

/-! ### What is on one line -/

theorem isOneLine_rowLine (size : Size) (y : Nat) (pixels : List (Pixel f)) :
    IsOneLine (rowLine size y pixels) := by
  have listed : ∀ text ∈ pixels.map (fun p => p.listing.inline) ++
      if 16 < size.width.toNat then ["..."] else [], IsOneLine text := by
    intro text member
    rcases List.mem_append.mp member with pixel | mark
    · obtain ⟨p, -, rfl⟩ := List.mem_map.mp pixel
      exact p.isOneLine_listing
    · rw [List.mem_singleton.mp (List.mem_ite_nil_right.mp mark).2]
      simp [IsOneLine]
  have joined := isOneLine_intercalate ", " _ (by simp [IsOneLine]) listed
  simp only [rowLine, isOneLine_append_iff]
  refine ⟨⟨⟨⟨?_, isOneLine_toString_nat y⟩, ?_⟩, joined⟩, ?_⟩ <;> simp [IsOneLine]

theorem isOneLine_previewLines (size : Size) (rows : List (List (Pixel f))) :
    ∀ line ∈ previewLines size rows, IsOneLine line := by
  intro line member
  rcases List.mem_append.mp member with row | mark
  · obtain ⟨y, inside, rfl⟩ := List.mem_mapIdx.mp row
    exact isOneLine_rowLine size y _
  · rw [List.mem_singleton.mp (List.mem_ite_nil_right.mp mark).2]
    simp [IsOneLine]

theorem isOneLine_headerLine (opening : String) (format : PixelFormat) (size : Size)
    (stored : String) (opens : IsOneLine opening) (tells : IsOneLine stored) :
    IsOneLine (headerLine opening format size stored) := by
  have brace : IsOneLine "> \x7b " := by simp [IsOneLine]
  have close : IsOneLine " \x7d" := by simp [IsOneLine]
  have extent : IsOneLine (Fault.extent size.width size.height) :=
    ((isOneLine_toString_nat _).append (by simp [IsOneLine])).append (isOneLine_toString_nat _)
  exact ((((opens.append format.isOneLine_tag).append brace).append extent).append tells).append
    close

theorem showsCorner_of_lines {result : Except Fault String} {header : String} {size : Size}
    {get : UInt32 → UInt32 → Except Fault (Pixel f)} {rows : List (List (Pixel f))}
    (written : result = .ok (joinLines (header :: previewLines size rows)))
    (oneLine : IsOneLine header) (corner : IsCorner size get rows) :
    ShowsCorner result header size get :=
  ⟨_, rows, written, corner, hasLines_joinLines _ (List.forall_mem_cons.mpr
    ⟨oneLine, isOneLine_previewLines size rows⟩)⟩

/-! ### The corner of a view -/

namespace View

/-- The pixel at column `x` of row `y`, where there is one. -/
def pixelAt (v : View (Pixel f)) (x y : Nat) : Pixel f :=
  (v.get (.ofNat x) (.ofNat y)).toOption.getD default

def cornerRow (v : View (Pixel f)) (y : Nat) : List (Pixel f) :=
  (List.range (min v.width.toNat 16)).map fun x => v.pixelAt x y

def corner (v : View (Pixel f)) : List (List (Pixel f)) :=
  (List.range (min v.height.toNat 8)).map v.cornerRow

theorem get_eq_pixelAt (v : View (Pixel f)) (wf : v.WellFormed) (x y : Nat)
    (column : x < v.width.toNat) (row : y < v.height.toNat) :
    v.get (.ofNat x) (.ofNat y) = .ok (v.pixelAt x y) := by
  obtain ⟨p, found⟩ := v.exists_get wf _ _ (Coordinate.ofNat_lt x _ column)
    (Coordinate.ofNat_lt y _ row)
  rw [pixelAt, found]
  rfl

theorem isCorner_corner (v : View (Pixel f)) (wf : v.WellFormed) :
    IsCorner v.size v.get v.corner where
  height_eq := by simp [corner, size]
  width_eq := by
    intro row member
    obtain ⟨y, -, rfl⟩ := List.mem_map.mp member
    simp [cornerRow, size]
  pixel x y column row left top := by
    have narrow : x.toNat < min v.width.toNat 16 := Nat.lt_min.mpr ⟨column, left⟩
    have low : y.toNat < min v.height.toNat 8 := Nat.lt_min.mpr ⟨row, top⟩
    have found := v.get_eq_pixelAt wf x.toNat y.toNat column row
    rw [UInt32.ofNat_toNat, UInt32.ofNat_toNat] at found
    refine ⟨v.cornerRow y.toNat, v.pixelAt x.toNat y.toNat, ?_, ?_, found⟩
    · simp [corner, low]
    · simp [cornerRow, narrow]

/-- A pixel outside the corner has no say in it. -/
theorem corner_congr (u v : View (Pixel f)) (size : u.size = v.size)
    (agree : AgreeOnCorner v.size u.get v.get) : u.corner = v.corner := by
  have width : u.width = v.width := congrArg Size.width size
  have height : u.height = v.height := congrArg Size.height size
  unfold corner cornerRow
  rw [width, height]
  -- Both are read at the same positions, none of which lies outside the corner.
  apply List.map_congr_left
  intro y low
  apply List.map_congr_left
  intro x narrow
  obtain ⟨column, left⟩ := Nat.lt_min.mp (List.mem_range.mp narrow)
  obtain ⟨row, top⟩ := Nat.lt_min.mp (List.mem_range.mp low)
  have same := agree (.ofNat x) (.ofNat y) (Coordinate.ofNat_lt x _ column)
    (Coordinate.ofNat_lt y _ row) (Coordinate.ofNat_lt x 16 left) (Coordinate.ofNat_lt y 8 top)
  rw [pixelAt, pixelAt, same]

/-! ### Writing the preview -/

/-- The mark follows the pixels like one more of them, since there are some if there is a mark. -/
theorem intercalate_mark (width : Nat) (shown : List String) (all : shown.length = min width 16) :
    ", ".intercalate shown ++ (if 16 < width then ", ..." else "") =
      ", ".intercalate (shown ++ if 16 < width then ["..."] else []) := by
  split
  next more =>
    have nonempty : shown ≠ [] := by
      rintro rfl
      rw [Nat.min_eq_right (Nat.le_of_lt more)] at all
      cases all
    rw [String.intercalate_append_of_ne_nil nonempty (List.cons_ne_nil _ _),
      String.intercalate_singleton, String.append_assoc]
    rfl
  next => rw [String.append_empty, List.append_nil]

theorem previewLine_eq (v : View (Pixel f)) (wf : v.WellFormed) (y : Nat)
    (row : y < v.height.toNat) :
    v.previewLine y = .ok (rowLine v.size y (v.cornerRow y) ++ "\n") := by
  have shown : ((List.range (min v.width.toNat previewColumns)).mapM fun x => do
      return (← v.get (UInt32.ofNat x) (UInt32.ofNat y)).listing.inline) =
      .ok ((v.cornerRow y).map fun p => p.listing.inline) := by
    rw [cornerRow, List.map_map]
    -- All columns that are shown are there, so no read ends the row before its last pixel.
    apply mapM_eq_ok
    intro x narrow
    have column : x < v.width.toNat := (Nat.lt_min.mp (List.mem_range.mp narrow)).1
    rw [v.get_eq_pixelAt wf x y column row]
    rfl
  have marked := intercalate_mark v.width.toNat ((v.cornerRow y).map fun p => p.listing.inline)
    (by simp [cornerRow])
  -- The bracket that closes a row is written along with the line feed.
  have closed (text mark : String) : "  row " ++ toString y ++ ": [" ++ text ++ mark ++ "]\n" =
      "  row " ++ toString y ++ ": [" ++ (text ++ mark) ++ "]" ++ "\n" := by
    simp only [String.append_assoc]
    rfl
  rw [previewLine, shown]
  refine (congrArg Except.ok (closed _ _)).trans ?_
  exact congrArg (fun text => Except.ok ("  row " ++ toString y ++ ": [" ++ text ++ "]" ++ "\n"))
    marked

theorem preview_eq (v : View (Pixel f)) (wf : v.WellFormed) :
    v.preview = .ok (joinLines (previewLines v.size v.corner)) := by
  have lines : (List.range (min v.height.toNat previewRows)).mapM v.previewLine =
      .ok ((v.corner.mapIdx (rowLine v.size)).map fun line => line ++ "\n") := by
    have numbered : (v.corner.mapIdx (rowLine v.size)).map (fun line => line ++ "\n") =
        (List.range (min v.height.toNat previewRows)).map fun y =>
          rowLine v.size y (v.cornerRow y) ++ "\n" := by
      apply List.ext_getElem
      · simp [corner, previewRows]
      · intro y _ _
        simp [corner]
    rw [numbered]
    apply mapM_eq_ok
    intro y low
    exact v.previewLine_eq wf y (Nat.lt_min.mp (List.mem_range.mp low)).1
  -- The mark for more rows is a line of its own.
  have mark : (if 8 < v.height.toNat then "  ...\n" else "") =
      joinLines (if 8 < v.height.toNat then ["  ..."] else []) := by
    split <;> rfl
  rw [preview, lines, previewLines, joinLines_append]
  exact congrArg (fun text => Except.ok (_ ++ text)) mark

/-- The line that tells size and stride. -/
def header (v : View (Pixel f)) : String :=
  headerLine "ImageView<" f v.size (", stride=" ++ toString v.stride)

theorem listing_eq (v : View (Pixel f)) (wf : v.WellFormed) :
    v.listing = .ok (joinLines (v.header :: previewLines v.size v.corner)) := by
  unfold header headerLine
  rw [listing, v.preview_eq wf, joinLines_cons]
  simp only [String.append_assoc]
  rfl

theorem listing_showsCorner (v : View (Pixel f)) (wf : v.WellFormed) :
    ShowsCorner v.listing v.header v.size v.get := by
  have stride : IsOneLine (", stride=" ++ toString v.stride) :=
    IsOneLine.append (by simp [IsOneLine]) (isOneLine_toString_nat v.stride)
  exact showsCorner_of_lines (v.listing_eq wf)
    (isOneLine_headerLine _ f v.size _ (by simp [IsOneLine]) stride) (v.isCorner_corner wf)

/-- Views of one size and stride that agree on the corner have the same text. -/
theorem listing_congr (u v : View (Pixel f)) (wfU : u.WellFormed) (wfV : v.WellFormed)
    (size : u.size = v.size) (stride : u.stride = v.stride)
    (agree : AgreeOnCorner v.size u.get v.get) : u.listing = v.listing := by
  have header : u.header = v.header := by
    unfold View.header
    rw [size, stride]
  rw [u.listing_eq wfU, v.listing_eq wfV, header, size, u.corner_congr v size agree]

end View

/-! ### The text of an image -/

namespace Image

/-- The line that tells size and kind of storage. -/
def header (img : Image (Pixel f)) : String :=
  headerLine "Image<" f img.size (", " ++ img.storage.kind.name)

theorem listing_eq (img : Image (Pixel f)) (wf : img.WellFormed) :
    img.listing = .ok (joinLines (img.header :: previewLines img.size img.asView.corner)) := by
  unfold header headerLine
  rw [listing, img.asView.preview_eq wf.asView, joinLines_cons]
  simp only [String.append_assoc]
  rfl

theorem agreeOnCorner_asView (img : Image (Pixel f)) (wf : img.WellFormed) :
    AgreeOnCorner img.size img.asView.get fun x y => img.get (.cell x y) :=
  fun x y column row _ _ => img.get_asView wf x y column row

theorem listing_showsCorner (img : Image (Pixel f)) (wf : img.WellFormed) :
    ShowsCorner img.listing img.header img.size fun x y => img.get (.cell x y) := by
  have kind : IsOneLine (", " ++ img.storage.kind.name) := by
    cases img.storage.kind <;> simp [IsOneLine, StorageKind.name]
  exact showsCorner_of_lines (img.listing_eq wf)
    (isOneLine_headerLine _ f img.size _ (by simp [IsOneLine]) kind)
    ((img.asView.isCorner_corner wf.asView).congr (img.agreeOnCorner_asView wf))

/-- Images of one size have one kind of storage, so the corner decides the text. -/
theorem listing_congr (a b : Image (Pixel f)) (wfA : a.WellFormed) (wfB : b.WellFormed)
    (size : a.size = b.size)
    (agree : AgreeOnCorner b.size (fun x y => a.get (.cell x y)) fun x y => b.get (.cell x y)) :
    a.listing = b.listing := by
  have kind : a.storage.kind = b.storage.kind := by
    rw [wfA.fits.kind_eq, wfB.fits.kind_eq, size]
  have header : a.header = b.header := by
    unfold Image.header
    rw [size, kind]
  have viewsAgree : AgreeOnCorner b.size a.asView.get b.asView.get :=
    (size ▸ a.agreeOnCorner_asView wfA).trans (agree.trans (b.agreeOnCorner_asView wfB).symm)
  rw [a.listing_eq wfA, b.listing_eq wfB, header, size,
    a.asView.corner_congr b.asView size viewsAgree]

/-- The texts of reachable images and views can always be written, also where there are no columns or
rows. They have a line for the header, for each of the first eight rows, and for the mark if there
are more rows; a row shows its first sixteen pixels in order, and a mark if there are more. Pixels
beyond these do not matter to the text. Images of one size agree in their kind of storage anyway. -/
theorem listing_shows_corner (f : PixelFormat) :
    (∀ img : Image (Pixel f), img.Reachable →
      ShowsCorner img.listing img.header img.size fun x y => img.get (.cell x y)) ∧
    (∀ v : View (Pixel f), v.Reachable → ShowsCorner v.listing v.header v.size v.get) ∧
    (∀ a b : Image (Pixel f), a.Reachable → b.Reachable → a.size = b.size →
      AgreeOnCorner b.size (fun x y => a.get (.cell x y)) (fun x y => b.get (.cell x y)) →
        a.listing = b.listing) ∧
    ∀ u v : View (Pixel f), u.Reachable → v.Reachable → u.size = v.size → u.stride = v.stride →
      AgreeOnCorner v.size u.get v.get → u.listing = v.listing := by
  refine ⟨fun img made => ?_, fun v made => ?_, fun a b madeA madeB => ?_, fun u v madeU madeV => ?_⟩
  · exact img.listing_showsCorner made.wellFormed
  · exact v.listing_showsCorner made.wellFormed
  · exact a.listing_congr b madeA.wellFormed madeB.wellFormed
  · exact u.listing_congr v madeU.wellFormed madeV.wellFormed

/-- A pixel of a large image is painted, and neither the text of the image nor that of a view of the
whole shows it. A window without columns at the far edge has rows without pixels. -/
theorem listing_shows_corner_wall :
    wall.Reachable ∧ ramp.Reachable ∧
      ShowsCorner wall.listing wall.header ⟨40, 40⟩ (fun x y => wall.get (.cell x y)) ∧
      (∃ painted, wall.set (.cell 16 7) (Level.ofNat 7 : Level 16) = .ok painted ∧
        painted.listing = wall.listing ∧ painted.asView.listing = wall.asView.listing) ∧
      ∃ edge text, ramp.asView.subViews [⟨⟨6, 2⟩, ⟨0, 2⟩⟩] = .ok edge ∧ edge.listing = .ok text ∧
        HasLines text [edge.header, "  row 0: []", "  row 1: []"] := by
  have wallWf : wall.WellFormed := wellFormed_filled 40 40 _
  have wallMade : wall.Reachable := (reachable_iff_wellFormed wall).mpr wallWf
  obtain ⟨images, -, imagesAgree, viewsAgree⟩ := listing_shows_corner .gray16
  obtain ⟨-, views, -⟩ := listing_shows_corner .gray8
  refine ⟨wallMade, ramp_reachable, images wall wallMade, ?_, ?_⟩
  · obtain ⟨painted, put⟩ : ∃ painted : Image (Pixel .gray16), painted =
        { wall with storage := wall.storage.put (wall.indexAt 16 7) (Level.ofNat 7 : Level 16) } :=
      ⟨_, rfl⟩
    have written := wall.writesAs_put wallWf 16 7 (by decide) (by decide) (Level.ofNat 7 : Level 16)
    rw [← put] at written
    obtain ⟨size, -, -, elsewhere⟩ := wall.readsAs_put wallWf 16 7 (by decide) (by decide) _ _ put
    have stride : painted.asView.stride = wall.asView.stride :=
      congrArg (fun size => size.width.toNat) size
    have paintedMade : painted.Reachable :=
      (reachable_iff_wellFormed painted).mpr (wellFormed_set wallWf _ _ painted written.cell)
    -- Column 16 is the first that the preview leaves out.
    have other (x y : UInt32) (left : x < 16) : (x, y) ≠ ((16, 7) : UInt32 × UInt32) := by
      intro same
      obtain rfl : x = 16 := congrArg Prod.fst same
      exact absurd left (by decide)
    refine ⟨painted, written.cell, imagesAgree painted wall paintedMade wallMade size ?_,
      viewsAgree painted.asView wall.asView ⟨painted, paintedMade, [], rfl⟩ ⟨wall, wallMade, [], rfl⟩
        size stride ?_⟩
    · intro x y column row left _
      obtain ⟨old, before, after⟩ := elsewhere x y column row (other x y left)
      exact after.cell.trans before.cell.symm
    · intro x y column row left _
      obtain ⟨old, before, after⟩ := elsewhere x y column row (other x y left)
      exact after.viewCell.trans before.viewCell.symm
  · obtain ⟨edge, chain⟩ : ∃ edge, ramp.asView.subViews [⟨⟨6, 2⟩, ⟨0, 2⟩⟩] = .ok edge := ⟨_, rfl⟩
    have size : edge.size = ⟨0, 2⟩ :=
      (View.isWindowOf_of_subViews _ _ edge ramp_reachable.wellFormed.asView chain).1
    obtain ⟨text, rows, returned, corner, lines⟩ := views edge ⟨ramp, ramp_reachable, _, chain⟩
    rw [size] at corner lines
    have empty : rows = List.replicate 2 [] := by
      apply List.eq_replicate_iff.mpr
      refine ⟨corner.height_eq, fun row member => ?_⟩
      exact List.length_eq_zero_iff.mp (corner.width_eq row member)
    subst empty
    exact ⟨edge, text, chain, returned, lines⟩

end Image

end Raster
